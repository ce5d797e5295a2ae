import OpenAlice.Trading.Brokers.MockFills
import Mathlib.Tactic.LinearCombination
import Mathlib.Tactic.NormNum

/-!
# Fills and the equity of the simulated exchange

A fill of a quantity at a price moves the net liquidation by what the mark is better than the price:
the cash pays the price, the position is worth the mark.  It does so in every fill of every run
unless

* what lies under the instrument's key is priced otherwise than the instrument: it has another
  multiplier, another mark, or a price that `setPositions` has fixed;
* `externalTrade` has closed the position: it then looks for the multiplier where the position was,
  finds none, and books the cash at a multiplier of one;
* the figures of the account are overridden.
-/

namespace OpenAlice.Trading.Brokers.MockBroker

open Data

/-! ## The law -/

namespace Fill

variable (f : Fill) (mark : Decimal)

/-- What a fill should make of the net liquidation. -/
def gain : Decimal :=
  f.quantity * multiplierOf f.contract *
    if f.side = "BUY" then mark - f.price else f.price - mark

def Conserves : Prop :=
  ∃ a b, f.before.netLiquidation = some a ∧ f.after.netLiquidation = some b ∧ b - a = f.gain mark

/-- What is held is priced as the instrument is, and the cash is booked at the instrument's
multiplier.  Where the account's figures are overridden nothing may change at all; where a trade
outside closes a position that is priced otherwise, the two faults would have to cancel. -/
def Sound : Prop :=
  match f.before.accountOverride with
  | some info => info.netLiquidation.isSome = true ∧ f.gain mark = 0
  | none =>
    f.quantity = 0 ∨
      if f.ClosesOut then
        f.worth - mark * multiplierOf f.contract = (1 - multiplierOf f.contract) * f.price
      else f.worth = mark * multiplierOf f.contract

variable {f} {mark}

theorem gain_eq : f.gain mark =
      sideOf f.side * (f.quantity * (multiplierOf f.contract * (mark - f.price))) := by
  rw [gain, sideOf]
  split_ifs <;> ring

theorem sideOf_ne_zero (side : String) : sideOf side ≠ 0 := by
  rw [sideOf]
  split_ifs
  · exact one_ne_zero
  · exact neg_ne_zero.mpr one_ne_zero

theorem Effect.conserves_iff (h : f.Effect) (hall : f.before.AllMarked)
    (hmark : f.before.markPriceFor f.contract = some mark) : f.Conserves mark ↔ f.Sound mark := by
  rw [Sound]
  cases hinfo : f.before.accountOverride with
  | some info =>
    have hbefore : f.before.netLiquidation = info.netLiquidation := by
      rw [netLiquidation, getAccount, hinfo]
    have hafter : f.after.netLiquidation = info.netLiquidation := by
      rw [netLiquidation, getAccount, h.override, hinfo]
    constructor
    · rintro ⟨a, b, ha, hb, hgain⟩
      rw [hbefore] at ha
      rw [hafter, ha] at hb
      cases hb
      rw [sub_self] at hgain
      exact ⟨Option.isSome_iff_exists.mpr ⟨a, ha⟩, hgain.symm⟩
    · rintro ⟨hsome, hgain⟩
      obtain ⟨a, ha⟩ := Option.isSome_iff_exists.mp hsome
      exact ⟨a, a, hbefore.trans ha, hafter.trans ha, by rw [sub_self, hgain]⟩
  | none =>
    have hbefore := netLiquidation_eq hinfo hall
    have hafter := netLiquidation_eq (h.override.trans hinfo) (h.marked hall (by rw [hmark]; rfl))
    rw [signedValue_congr h.marks, h.total, h.cash] at hafter
    have hlaw : f.Conserves mark ↔
        sideOf f.side * (f.quantity * (f.worth - f.price * f.booked)) = f.gain mark := by
      constructor
      · rintro ⟨a, b, ha, hb, hgain⟩
        rw [hbefore] at ha
        rw [hafter] at hb
        cases ha
        cases hb
        rw [← hgain]
        ring
      · intro hgain
        refine ⟨_, _, hbefore, hafter, ?_⟩
        rw [← hgain]
        ring
    rw [hlaw, gain_eq, mul_right_inj' (sideOf_ne_zero f.side), mul_eq_mul_left_iff, or_comm, booked]
    refine or_congr Iff.rfl ?_
    split_ifs with hclose
    · constructor <;> intro heq <;> linear_combination heq
    · constructor <;> intro heq <;> linear_combination heq

end Fill

variable {js : Js} {toFixed : Decimal → String} {f : Fill} {mark : Decimal}

/-- **The net liquidation changes by exactly what the mark is better than the price**, in every fill
of every run in which all instruments are marked, if and only if what is held is priced as the
instrument is and no trade outside closes it at a multiplier that is then lost. -/
theorem fill_conserves_iff {id : String} {cash : Decimal} {accountInfo : Option AccountInfoPatch}
    (calls : List Call) (hf : f ∈ fills js toFixed calls (fresh id cash accountInfo))
    (hside : f.side = "BUY" ∨ f.side = "SELL") (hall : f.before.AllMarked)
    (hmark : f.before.markPriceFor f.contract = some mark) : f.Conserves mark ↔ f.Sound mark := by
  have heffect : f.Effect := fills_effect hf List.nodup_nil hside
  exact heffect.conserves_iff hall hmark

/-- A trade outside in an option of a hundred shares, which a second one closes. -/
def optionTrades : List Call :=
  [.setMarkPrice "OPT" 10, .externalTrade "OPT" .BUY 1 9 { multiplier := some 100 },
    .externalTrade "OPT" .SELL 1 12 {}]

def optionFills : List Fill := fills .ascii toString optionTrades (fresh "mock-paper" 100000 none)

theorem optionFills_marked : ∀ f ∈ optionFills, f.before.AllMarked := by decide +kernel

/-- The trade that opens the position conserves the equity. -/
theorem fill_conserves_bought : ∃ f ∈ optionFills, f.side = "BUY" ∧ f.Conserves 10 := by
  have hbought : ∃ f ∈ optionFills, f.side = "BUY" ∧
      f.before.markPriceFor f.contract = some 10 ∧ f.before.accountOverride = none ∧
      ¬ f.ClosesOut ∧ f.worth = 10 * multiplierOf f.contract := by
    decide +kernel
  obtain ⟨f, hf, hside, hmark, hinfo, hclose, hworth⟩ := hbought
  refine ⟨f, hf, hside, ?_⟩
  refine (fill_conserves_iff optionTrades hf (.inl hside) (optionFills_marked f hf) hmark).mpr ?_
  rw [Fill.Sound, hinfo]
  refine .inr ?_
  rw [if_neg hclose]
  exact hworth

/-- The trade that closes it books the price of one share for that of a hundred. -/
theorem closing_trade_loses_multiplier : ¬ ∀ (calls : List Call) (f : Fill) (mark : Decimal),
      f ∈ fills .ascii toString calls (fresh "mock-paper" 100000 none) →
      (f.side = "BUY" ∨ f.side = "SELL") → f.before.AllMarked →
      f.before.markPriceFor f.contract = some mark → f.Conserves mark := by
  intro h
  have hsold : ∃ f ∈ optionFills, f.side = "SELL" ∧
      f.before.markPriceFor f.contract = some 10 ∧ f.before.netLiquidation = some 100100 ∧
      f.after.netLiquidation = some 99112 ∧ f.gain 10 = 200 := by
    decide +kernel
  obtain ⟨f, hf, hside, hmark, hbefore, hafter, hgain⟩ := hsold
  obtain ⟨a, b, ha, hb, heq⟩ := h optionTrades f 10 hf (.inr hside) (optionFills_marked f hf) hmark
  rw [hbefore] at ha
  rw [hafter] at hb
  cases ha
  cases hb
  rw [hgain] at heq
  norm_num at heq

end OpenAlice.Trading.Brokers.MockBroker
