import OpenAlice.Trading.Brokers.Longbridge
import OpenAlice.Trading.Brokers.Futu
import OpenAlice.Trading.Brokers.MockBroker
import Mathlib.Tactic.LinearCombination
import Mathlib.Tactic.NormNum

/-!
# One valuation of positions

The adapters that value a position themselves: `getPositions` of `LongbridgeBroker.ts`,
`FutuBroker.ts` and `MockBroker.ts`, and the option marks of `IbkrBroker.ts`.  A position should be
worth its quantity at the market price, and have gained what the price has moved, the other way for
a short; then an account moves with its gains.

Longbridge gives `buildPosition` a gain that has no side, so a short counts the wrong way.  A mark
of IBKR is kept for some seconds and laid over whatever the row has become since.  The maps that
Longbridge looks prices and multipliers up in are given, and so is the market of a Futu row; the
numbers of Futu's rows are finite.
-/

namespace OpenAlice.Trading.Brokers

/-! ## The rule -/

structure Valued (p : BuiltPosition) : Prop where
  quantity : 0 ≤ p.quantity
  marketValue : p.marketValue = p.quantity * p.marketPrice * p.multiplier
  unrealizedPnL : p.unrealizedPnL =
    p.quantity * (p.marketPrice - p.avgCost) * p.multiplier * sideSign p.side

/-- Only prices change. -/
structure Repriced (p p' : BuiltPosition) : Prop where
  side : p'.side = p.side
  quantity : p'.quantity = p.quantity
  avgCost : p'.avgCost = p.avgCost
  multiplier : p'.multiplier = p.multiplier

def worth (cash : Decimal) (book : List BuiltPosition) : Decimal :=
  (aggregateAccountFromPositions id cash (book.map fun p ↦ (p.side, p.marketValue))).1

def gains (book : List BuiltPosition) : Decimal :=
  (book.map BuiltPosition.unrealizedPnL).foldl (· + ·) 0

theorem move_eq {p p' : BuiltPosition} (h : Repriced p p') (hp : Valued p) (hp' : Valued p') :
    (if p'.side = .short then -p'.marketValue else p'.marketValue) -
        (if p.side = .short then -p.marketValue else p.marketValue) =
      p'.unrealizedPnL - p.unrealizedPnL := by
  rw [hp.marketValue, hp'.marketValue, hp.unrealizedPnL, hp'.unrealizedPnL, h.side, h.quantity,
    h.avgCost, h.multiplier]
  cases p.side with
  | long => simp [sideSign]; ring
  | short => simp [sideSign]; ring

theorem worth_moves {book book' : List BuiltPosition} (h : List.Forall₂ Repriced book book')
    (hvalued : ∀ p ∈ book, Valued p) (hvalued' : ∀ p ∈ book', Valued p) (cash : Decimal) :
    worth cash book' - worth cash book = gains book' - gains book := by
  have hrun : ∀ total total' gain gain' : Decimal,
      (book'.map fun p ↦ (p.side, p.marketValue)).foldl
          (fun total p ↦ id (total + if p.1 = .short then -p.2 else p.2)) total' -
        (book.map fun p ↦ (p.side, p.marketValue)).foldl
          (fun total p ↦ id (total + if p.1 = .short then -p.2 else p.2)) total -
        (total' - total) =
      (book'.map BuiltPosition.unrealizedPnL).foldl (· + ·) gain' -
        (book.map BuiltPosition.unrealizedPnL).foldl (· + ·) gain - (gain' - gain) := by
    induction h with
    | nil =>
      intro total total' gain gain'
      simp only [List.map_nil, List.foldl_nil, sub_self]
    | @cons p p' book book' hhead _ ih =>
      intro total total' gain gain'
      have hmove := move_eq hhead (hvalued p (.head _)) (hvalued' p' (.head _))
      have hrest := ih (fun p hp ↦ hvalued p (.tail _ hp)) (fun p hp ↦ hvalued' p (.tail _ hp))
        (total + if p.side = .short then -p.marketValue else p.marketValue)
        (total' + if p'.side = .short then -p'.marketValue else p'.marketValue)
        (gain + p.unrealizedPnL) (gain' + p'.unrealizedPnL)
      simp only [List.map_cons, List.foldl_cons, id_eq] at hrest ⊢
      linear_combination hrest + hmove
  have hmoved := hrun 0 0 0 0
  simp only [worth, gains, aggregateAccountFromPositions, id_eq] at hmoved ⊢
  linear_combination hmoved

/-! ## Positions that `buildPosition` values -/

def UnitCounts (quantity price avgCost multiplier : Decimal) : Prop :=
  multiplier = 0 → quantity = 0 ∨ (price = 0 ∧ avgCost = 0)

theorem valued_derived_iff {input : BuildPositionInput} {p : BuiltPosition}
    (hvalue : input.marketValue = none) (hgain : input.unrealizedPnL = none)
    (h : buildPosition id input = .ok p) :
    Valued p ↔ 0 ≤ input.quantity ∧
      UnitCounts input.quantity input.marketPrice input.avgCost input.unit := by
  rw [buildPosition] at h
  split at h
  · exact nomatch h
  cases h
  rw [hvalue, hgain]
  constructor
  · intro hvalued
    refine ⟨hvalued.quantity, fun hzero ↦ ?_⟩
    have hworth := hvalued.marketValue
    have hpnl := hvalued.unrealizedPnL
    simp only [Option.getD_none, derivePositionMath, multiplierToDecimal, hzero, if_true, id_eq,
      mul_one, mul_zero, zero_mul] at hworth hpnl
    rw [mul_eq_zero, mul_eq_zero] at hpnl
    rcases mul_eq_zero.mp hworth with hq | hprice
    · exact .inl hq
    rcases hpnl with (hq | hdiff) | hside
    · exact .inl hq
    · exact .inr ⟨hprice, by linarith⟩
    · cases hs : input.side <;> rw [hs, sideSign] at hside <;> norm_num at hside
  · rintro ⟨hquantity, hunit⟩
    by_cases hzero : input.unit = 0
    · rcases hunit hzero with hq | ⟨hprice, hcost⟩
      · constructor <;> simp [derivePositionMath, hq]
      · constructor <;> simp [derivePositionMath, hprice, hcost, hquantity]
    · constructor <;> simp [derivePositionMath, multiplierToDecimal, hzero, hquantity]

theorem valued_given_iff {input : BuildPositionInput} {p : BuiltPosition} {value gain : Decimal}
    (hvalue : input.marketValue = some value) (hgain : input.unrealizedPnL = some gain)
    (h : buildPosition id input = .ok p) :
    Valued p ↔ 0 ≤ input.quantity ∧ value = input.quantity * input.marketPrice * input.unit ∧
      gain = input.quantity * (input.marketPrice - input.avgCost) * input.unit *
        sideSign input.side := by
  rw [buildPosition] at h
  split at h
  · exact nomatch h
  cases h
  rw [hvalue, hgain]
  constructor
  · rintro ⟨hquantity, hworth, hpnl⟩
    exact ⟨hquantity, hworth, hpnl⟩
  · rintro ⟨hquantity, hworth, hpnl⟩
    exact ⟨hquantity, hworth, hpnl⟩

/-! ## The adapters -/

variable (js : Js)

/-- `LongbridgeStockPositionLike` -/
structure StockPosition where
  symbol : String
  currency : String
  quantity : Decimal
  costPrice : Decimal

structure LongbridgeMaps where
  quoteMap : String → Option Decimal
  optMulMap : String → Option Decimal
  warMulMap : String → Option Decimal

def LongbridgeMaps.marketPrice (maps : LongbridgeMaps) (p : StockPosition) : Decimal :=
  (maps.quoteMap p.symbol).getD p.costPrice

def LongbridgeMaps.multiplier (maps : LongbridgeMaps) (p : StockPosition) : Decimal :=
  ((maps.optMulMap p.symbol).or (maps.warMulMap p.symbol)).getD 1

/-- `buildPosition` of `LongbridgeBroker.ts`. -/
def LongbridgeMaps.buildPosition (maps : LongbridgeMaps) (p : StockPosition) :
    Except String BuiltPosition := do
  let contract ← Longbridge.makeContract js p.symbol
  let absQty := |p.quantity|
  Brokers.buildPosition id {
    contract
    currency := js.toUpperCase p.currency
    side := if 0 ≤ p.quantity then .long else .short
    quantity := absQty
    avgCost := p.costPrice
    marketPrice := maps.marketPrice p
    marketValue := some (maps.marketPrice p * absQty * maps.multiplier p)
    unrealizedPnL := some ((maps.marketPrice p - p.costPrice) * absQty * maps.multiplier p)
    realizedPnL := 0
    multiplier := some (maps.multiplier p) }

/-- A row of `getPositionList`, its market and currency decoded. -/
structure FutuRow where
  market : String
  code : String
  qty : Decimal
  short : Bool
  price : Decimal
  averageCostPrice : Option Decimal
  dilutedCostPrice : Option Decimal
  costPrice : Option Decimal
  val : Option Decimal
  plVal : Option Decimal
  realizedPL : Option Decimal
  currency : String

def FutuRow.hasBrokerValues (p : FutuRow) : Bool := p.val.any (· ≠ 0)

def FutuRow.buildPosition (p : FutuRow) : Except String BuiltPosition := do
  let contract ← Futu.makeContract js (p.market ++ "." ++ p.code)
  Brokers.buildPosition id {
    contract
    currency := p.currency
    side := if p.short then .short else .long
    quantity := |p.qty|
    avgCost := ((p.averageCostPrice.or p.dilutedCostPrice).or p.costPrice).getD 0
    marketPrice := p.price
    realizedPnL := p.realizedPL.getD 0
    multiplier := some 1
    marketValue := if p.hasBrokerValues then p.val else none
    unrealizedPnL := if p.hasBrokerValues then some (p.plVal.getD 0) else none }

def fetchOptionMark (position : BuiltPosition) (bid ask : Decimal) :
    Option (Decimal × Decimal × Decimal) :=
  if bid ≤ 0 ∨ ask ≤ 0 then none
  else
    let marketPrice := (bid + ask) / 2
    some (marketPrice, derivePositionMath id position.quantity marketPrice position.avgCost
      (some position.multiplier) position.side)

def withOverlay (position : BuiltPosition) (overlay : Decimal × Decimal × Decimal) :
    BuiltPosition :=
  { position with
    marketPrice := overlay.1
    marketValue := overlay.2.1
    unrealizedPnL := overlay.2.2 }

/-- `getPositions` of `MockBroker.ts`, for one position and its price. -/
def mockPosition (pos : InternalPosition) (price avgCost : Decimal) :
    Except String BuiltPosition :=
  buildPosition id {
    contract := pos.contract
    currency := if pos.contract.currency = "" then "USD" else pos.contract.currency
    side := pos.side
    quantity := pos.quantity
    avgCost
    marketPrice := price
    realizedPnL := 0
    avgCostSource := pos.avgCostSource }

inductive Holding where
  | longbridge (maps : LongbridgeMaps) (p : StockPosition)
  | futu (p : FutuRow) (h : p.hasBrokerValues = false)
  | ibkr (position asked : BuiltPosition) (bid ask : Decimal)
  | mock (s : MockBroker) (pos : InternalPosition)

def Holding.position : Holding → Except String (Option BuiltPosition)
  | .longbridge maps p =>
    if p.quantity = 0 then .ok none else some <$> maps.buildPosition js p
  | .futu p _ => if p.qty = 0 then .ok none else some <$> p.buildPosition js
  | .ibkr position asked bid ask =>
    .ok ((fetchOptionMark asked bid ask).map (withOverlay position))
  | .mock s pos =>
    match s.priceOf pos, pos.avgCost with
    | some price, some avgCost => some <$> mockPosition pos price avgCost
    | _, _ => .ok none

def Holding.Fair : Holding → Prop
  | .longbridge maps p =>
    0 ≤ p.quantity ∨ maps.marketPrice p = p.costPrice ∨ maps.multiplier p = 0
  | .futu .. => True
  | .ibkr position asked bid ask =>
    let price := (bid + ask) / 2
    let held := position.quantity * position.multiplier
    0 ≤ position.quantity ∧ asked.quantity * multiplierToDecimal (some asked.multiplier) = held ∧
      (held = 0 ∨ (price - asked.avgCost) * sideSign asked.side =
        (price - position.avgCost) * sideSign position.side)
  | .mock s pos =>
    0 ≤ pos.quantity ∧ ∀ price avgCost, s.priceOf pos = some price → pos.avgCost = some avgCost →
      UnitCounts pos.quantity price avgCost (pos.contract.multiplier.getD 1)

/-! ## When a position is valued by the rule -/

variable {js : Js} {p : BuiltPosition}

theorem longbridge_valued_iff {maps : LongbridgeMaps} {row : StockPosition}
    (hheld : row.quantity ≠ 0) (h : maps.buildPosition js row = .ok p) :
    Valued p ↔ 0 ≤ row.quantity ∨ maps.marketPrice row = row.costPrice ∨
      maps.multiplier row = 0 := by
  rw [LongbridgeMaps.buildPosition] at h
  cases hcontract : Longbridge.makeContract js row.symbol with
  | error text => exact nomatch hcontract ▸ h
  | ok contract =>
    rw [hcontract] at h
    replace h : buildPosition id _ = .ok p := h
    have habs : 0 < |row.quantity| := abs_pos.mpr hheld
    refine (valued_given_iff rfl rfl h).trans ?_
    constructor
    · rintro ⟨-, -, hpnl⟩
      by_contra hnot
      rw [not_or, not_or, not_le] at hnot
      obtain ⟨hshort, hmoved, hunit⟩ := hnot
      rw [BuildPositionInput.unit, Option.getD_some, if_neg (not_le.mpr hshort), sideSign] at hpnl
      have hzero : |row.quantity| * (maps.marketPrice row - row.costPrice) *
          maps.multiplier row = 0 := by linarith
      rcases mul_eq_zero.mp hzero with hleft | hright
      · rcases mul_eq_zero.mp hleft with hq | hdiff
        · exact habs.ne' hq
        · exact hmoved (sub_eq_zero.mp hdiff)
      · exact hunit hright
    · intro hfair
      rw [BuildPositionInput.unit, Option.getD_some]
      refine ⟨habs.le, by ring, ?_⟩
      rcases hfair with hlong | hsame | hunit
      · rw [if_pos hlong, sideSign]
        ring
      · rw [hsame]
        ring
      · rw [hunit]
        ring

theorem futu_valued {row : FutuRow} (hown : row.hasBrokerValues = false)
    (h : row.buildPosition js = .ok p) : Valued p := by
  rw [FutuRow.buildPosition] at h
  cases hcontract : Futu.makeContract js (row.market ++ "." ++ row.code) with
  | error text => exact nomatch hcontract ▸ h
  | ok contract =>
    rw [hcontract] at h
    replace h : buildPosition id _ = .ok p := h
    have hnone := Bool.eq_false_iff.mp hown
    exact (valued_derived_iff (if_neg hnone) (if_neg hnone) h).mpr
      ⟨abs_nonneg _, fun hunit ↦ absurd hunit one_ne_zero⟩

theorem ibkr_valued_iff {position asked : BuiltPosition} {bid ask : Decimal}
    {overlay : Decimal × Decimal × Decimal} (h : fetchOptionMark asked bid ask = some overlay) :
    Valued (withOverlay position overlay) ↔ (Holding.ibkr position asked bid ask).Fair := by
  rw [fetchOptionMark] at h
  split_ifs at h with hmissing
  cases h
  rw [not_or, not_le, not_le] at hmissing
  have hprice : (bid + ask) / 2 ≠ 0 := (half_pos (add_pos hmissing.1 hmissing.2)).ne'
  constructor
  · intro hvalued
    have hworth := hvalued.marketValue
    have hpnl := hvalued.unrealizedPnL
    simp only [withOverlay, derivePositionMath, id_eq] at hworth hpnl
    have hheld : asked.quantity * multiplierToDecimal (some asked.multiplier) =
        position.quantity * position.multiplier :=
      mul_right_cancel₀ hprice (by linear_combination hworth)
    refine ⟨hvalued.quantity, hheld, or_iff_not_imp_left.mpr fun hne ↦ ?_⟩
    exact mul_left_cancel₀ hne (by
      linear_combination hpnl - ((bid + ask) / 2 - asked.avgCost) * sideSign asked.side * hheld)
  · rintro ⟨hquantity, hheld, hgain⟩
    refine ⟨hquantity, ?_, ?_⟩
    · simp only [withOverlay, derivePositionMath, id_eq]
      linear_combination (bid + ask) / 2 * hheld
    simp only [withOverlay, derivePositionMath, id_eq]
    rcases hgain with hzero | hsame
    · rw [hzero] at hheld
      linear_combination ((bid + ask) / 2 - asked.avgCost) * sideSign asked.side * hheld -
        ((bid + ask) / 2 - position.avgCost) * sideSign position.side * hzero
    · linear_combination ((bid + ask) / 2 - asked.avgCost) * sideSign asked.side * hheld +
        position.quantity * position.multiplier * hsame

theorem valued_iff {holding : Holding} (h : holding.position js = .ok (some p)) :
    Valued p ↔ holding.Fair := by
  have hmap {built : Except String BuiltPosition} (h : some <$> built = .ok (some p)) :
      built = .ok p := by
    cases built with
    | error text => exact nomatch h
    | ok p' => exact congrArg _ (Option.some.inj (Except.ok.inj h))
  cases holding with
  | longbridge maps row =>
    rw [Holding.position] at h
    split_ifs at h with hzero
    · exact nomatch Except.ok.inj h
    · exact longbridge_valued_iff hzero (hmap h)
  | futu row hown =>
    rw [Holding.position] at h
    split_ifs at h with hzero
    · exact nomatch Except.ok.inj h
    · exact iff_of_true (futu_valued hown (hmap h)) trivial
  | ibkr position asked bid ask =>
    obtain ⟨overlay, hmark, rfl⟩ := Option.map_eq_some_iff.mp (Except.ok.inj h)
    exact ibkr_valued_iff hmark
  | mock s pos =>
    rw [Holding.position] at h
    split at h
    · rename_i price avgCost hprice hcost
      refine (valued_derived_iff rfl rfl (hmap h)).trans (and_congr_right fun _ ↦ ?_)
      constructor
      · intro hunit price' avgCost' hprice' hcost'
        cases hprice.symm.trans hprice'
        cases hcost.symm.trans hcost'
        exact hunit
      · exact fun hunit ↦ hunit price avgCost hprice hcost
    · exact nomatch Except.ok.inj h

/-! ## A book -/

def Lists (js : Js) (holdings : List Holding) (book : List BuiltPosition) : Prop :=
  List.Forall₂ (fun holding p ↦ holding.position js = .ok (some p)) holdings book

theorem book_valued_iff {holdings : List Holding} {book : List BuiltPosition}
    (h : Lists js holdings book) :
    (∀ p ∈ book, Valued p) ↔ ∀ holding ∈ holdings, holding.Fair := by
  induction h with
  | nil => simp only [List.not_mem_nil, false_imp_iff, implies_true]
  | cons hhead _ ih =>
    rw [List.forall_mem_cons, List.forall_mem_cons, valued_iff hhead, ih]

/-- **When positions are valued by one rule.**  Every position has the values of the rule, and the
account moves with the gains, exactly where every holding is fair. -/
theorem valuation_iff (js : Js) {holdings holdings' : List Holding}
    {book book' : List BuiltPosition} (h : Lists js holdings book)
    (h' : Lists js holdings' book') (hrepriced : List.Forall₂ Repriced book book') :
    ((∀ p ∈ book, Valued p) ∧ (∀ p ∈ book', Valued p) ∧
        ∀ cash, worth cash book' - worth cash book = gains book' - gains book) ↔
      (∀ holding ∈ holdings, holding.Fair) ∧ ∀ holding ∈ holdings', holding.Fair := by
  rw [← book_valued_iff h, ← book_valued_iff h']
  constructor
  · rintro ⟨hvalued, hvalued', -⟩
    exact ⟨hvalued, hvalued'⟩
  · rintro ⟨hvalued, hvalued'⟩
    exact ⟨hvalued, hvalued', worth_moves hrepriced hvalued hvalued'⟩

def stockAt (price quantity : Decimal) : Holding :=
  .longbridge ⟨fun _ ↦ some price, fun _ ↦ none, fun _ ↦ none⟩ ⟨"AAPL.US", "USD", quantity, 100⟩

/-- An account with a long holding moves with its gain. -/
theorem valuation_of_long : ∃ book book', Lists .ascii [stockAt 90 10] book ∧
    Lists .ascii [stockAt 110 10] book' ∧
    ∀ cash, worth cash book' - worth cash book = gains book' - gains book := by
  have hlists : ∀ price, ∃ p, (stockAt price 10).position .ascii = .ok (some p) ∧
      p.side = .long ∧ p.quantity = 10 ∧ p.avgCost = 100 ∧ p.multiplier = 1 :=
    fun price ↦ ⟨_, rfl, rfl, rfl, rfl, rfl⟩
  obtain ⟨p, hp, hside, hquantity, hcost, hunit⟩ := hlists 90
  obtain ⟨p', hp', hside', hquantity', hcost', hunit'⟩ := hlists 110
  have hbook : Lists .ascii [stockAt 90 10] [p] := .cons hp .nil
  have hbook' : Lists .ascii [stockAt 110 10] [p'] := .cons hp' .nil
  have hfair : ∀ price, ∀ holding ∈ [stockAt price 10], holding.Fair := by
    intro price holding hholding
    obtain rfl := List.mem_singleton.mp hholding
    exact .inl (by decide)
  exact ⟨_, _, hbook, hbook', ((valuation_iff .ascii hbook hbook' (.cons ⟨hside'.trans hside.symm,
    hquantity'.trans hquantity.symm, hcost'.trans hcost.symm, hunit'.trans hunit.symm⟩ .nil)).mpr
      ⟨hfair 90, hfair 110⟩).2.2⟩

/-- A short of Longbridge loses what it should gain. -/
theorem short_gains_the_wrong_way : ¬ ∀ (js : Js) (holding : Holding) (p : BuiltPosition),
    holding.position js = .ok (some p) → Valued p := by
  intro h
  have hshort : ∃ p, (stockAt 90 (-10)).position .ascii = .ok (some p) := ⟨_, rfl⟩
  obtain ⟨p, hp⟩ := hshort
  have hfair := (valued_iff hp).mp (h .ascii _ p hp)
  rcases hfair with hlong | hsame | hunit
  · exact absurd hlong (by decide)
  · exact absurd hsame (by decide)
  · exact absurd hunit (by decide)

end OpenAlice.Trading.Brokers
