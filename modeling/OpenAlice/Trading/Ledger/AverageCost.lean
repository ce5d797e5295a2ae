import OpenAlice.Data.Rounded
import OpenAlice.Trading.Ledger.CostBasis

/-!
# The average of a replay

What the replay of `recomputeCostBasisFromCommits` keeps.  It applies the fills that it counts, one
after the other, so its position is that of a list of fills; of these, the ones that matter for the
average are those since the quantity was last zero.

The average lies between the prices bought at since then, up to what `decimal.js` rounds, and the
invariant says so of every list of fills.
-/

namespace OpenAlice.Trading

open OpenAlice.Data

/-! ## Fills -/

structure Fill where
  qty : Decimal
  price : Decimal
  side : TradeSide

def Fill.isBuy (f : Fill) : Bool := f.side matches .buy

def CostBasis.fill (rnd : Decimal → Decimal) (b : CostBasis) (f : Fill) : CostBasis :=
  b.applyFill rnd f.qty f.price f.side

def replayFills (rnd : Decimal → Decimal) (fills : List Fill) : CostBasis :=
  fills.foldl (CostBasis.fill rnd) {}

def sinceFlatStep (rnd : Decimal → Decimal) (s : CostBasis × List Fill) (f : Fill) :
    CostBasis × List Fill :=
  let b := s.1.fill rnd f
  (b, if b.qty = 0 then [] else s.2 ++ [f])

def sinceFlat (rnd : Decimal → Decimal) (fills : List Fill) : List Fill :=
  (fills.foldl (sinceFlatStep rnd) ({}, [])).2

def boughtSinceFlat (rnd : Decimal → Decimal) (fills : List Fill) : List Fill :=
  (sinceFlat rnd fills).filter Fill.isBuy

/-! ## The fills that a log counts -/

def rowCounts (commits : List GitCommit) (aliceId : String) (counted : List String)
    (r : OperationResult) : Option (Fill × List String) :=
  if r.success = true then
    (rowFill commits r).bind fun f ↦
      if f.id ∈ counted ∨ f.op.matchesAliceId aliceId = false ∨ f.qty = 0 then none
      else some (⟨f.qty, f.price, f.op.fillDirection⟩, [f.id])
  else none

def operationCounts (aliceId : String) (p : Operation × Option OperationResult) :
    Option (Fill × List String) :=
  if p.1.matchesAliceId aliceId = true then
    p.2.bind fun r ↦
      if r.success = true then
        r.fill?.bind fun (qty, price) ↦
          if qty = 0 then none else some (⟨qty, price, p.1.fillDirection⟩, (resultId r).toList)
      else none
  else none

structure Counting where
  fills : List Fill := []
  counted : List String := []

def Counting.add (s : Counting) : Option (Fill × List String) → Counting
  | none => s
  | some (f, ids) => ⟨s.fills ++ [f], ids ++ s.counted⟩

def countCommit (commits : List GitCommit) (aliceId : String) (s : Counting) (c : GitCommit) :
    Counting :=
  if c.isSync then c.results.foldl (fun s r ↦ s.add (rowCounts commits aliceId s.counted r)) s
  else c.pairs.foldl (fun s p ↦ s.add (operationCounts aliceId p)) s

def countedFills (commits : List GitCommit) (aliceId : String) : List Fill :=
  (commits.foldl (countCommit commits aliceId) {}).fills

section Replay

variable {rnd : Decimal → Decimal} {commits : List GitCommit} {aliceId : String}

def Counting.replay (rnd : Decimal → Decimal) (s : Counting) : Replay :=
  ⟨replayFills rnd s.fills, s.counted⟩

theorem replayFills_concat (fills : List Fill) (f : Fill) :
    replayFills rnd (fills ++ [f]) = (replayFills rnd fills).fill rnd f := by
  rw [replayFills, List.foldl_append]
  rfl

theorem replay_add (s : Counting) (f : Fill) (ids : List String) :
    (s.add (some (f, ids))).replay rnd = ⟨(s.replay rnd).basis.fill rnd f, ids ++ s.counted⟩ := by
  rw [Counting.add, Counting.replay, replayFills_concat]
  rfl

theorem costRow_replay (s : Counting) (r : OperationResult) :
    costRow rnd commits aliceId (s.replay rnd) r =
      (s.add (rowCounts commits aliceId s.counted r)).replay rnd := by
  rw [rowCounts]
  split_ifs with hsuccess
  · cases hfill : rowFill commits r with
    | none => exact costRow_none hfill
    | some f =>
      have hcounted : (s.replay rnd).counted = s.counted := rfl
      rw [costRow_some hsuccess hfill, Option.bind_some, hcounted]
      split_ifs
      · rfl
      · exact (replay_add s ⟨f.qty, f.price, f.op.fillDirection⟩ [f.id]).symm
  · rw [costRow, if_pos (.inl (Bool.eq_false_iff.mpr hsuccess))]
    rfl

theorem costOperation_replay (s : Counting) (p : Operation × Option OperationResult) :
    costOperation rnd aliceId (s.replay rnd) p =
      (s.add (operationCounts aliceId p)).replay rnd := by
  obtain ⟨op, result⟩ := p
  rw [costOperation, operationCounts]
  cases op.matchesAliceId aliceId with
  | false => rfl
  | true =>
    cases result with
    | none => rfl
    | some r =>
      rw [if_neg (by decide), if_pos rfl, Option.bind_some]
      cases hsuccess : r.success with
      | false =>
        simp only [hsuccess, if_true, Bool.false_eq_true, if_false]
        rfl
      | true =>
        simp only [hsuccess, Bool.true_eq_false, if_true, if_false]
        cases hfill : r.fill? with
        | none => rfl
        | some fill =>
          obtain ⟨qty, price⟩ := fill
          simp only [Option.bind_some]
          split_ifs
          · rfl
          · exact (replay_add s ⟨qty, price, op.fillDirection⟩ (resultId r).toList).symm

theorem basis_costReplay :
    (costReplay rnd commits aliceId).basis = replayFills rnd (countedFills commits aliceId) := by
  have hcommit : ∀ (s : Counting) (c : GitCommit),
      costCommit rnd commits aliceId (s.replay rnd) c = (countCommit commits aliceId s c).replay rnd := by
    intro s c
    rw [costCommit, countCommit]
    split_ifs
    · exact List.foldl_hom (Counting.replay rnd) costRow_replay
    · exact List.foldl_hom (Counting.replay rnd) costOperation_replay
  have hreplay : costReplay rnd commits aliceId =
      (commits.foldl (countCommit commits aliceId) {}).replay rnd := by
    rw [costReplay, ← List.foldl_hom (Counting.replay rnd) hcommit]
    rfl
  rw [hreplay]
  rfl

end Replay

/-! ## One fill -/

section Step

variable (R : Rounding Decimal)

structure Sound (b : CostBasis) (since : List Fill) : Prop where
  qty_nonneg : 0 ≤ b.qty
  avg_nonneg : 0 ≤ b.avgCost
  flat : b.qty = 0 → b.avgCost = 0 ∧ since = []
  bought : 0 < b.qty → since.filter Fill.isBuy ≠ []
  zero : 0 < b.qty → (b.avgCost = 0 ↔ ∀ f ∈ since.filter Fill.isBuy, f.price = 0)
  between : 0 < b.qty → ∀ lo hi, 0 ≤ lo →
    (∀ f ∈ since.filter Fill.isBuy, lo ≤ f.price ∧ f.price ≤ hi) →
      lo * R.shrink ^ (since.filter Fill.isBuy).length ≤ b.avgCost ∧
        b.avgCost ≤ hi * R.grow ^ (since.filter Fill.isBuy).length

variable {R} {b : CostBasis} {since : List Fill} {qty price : Decimal}

theorem sound_flat (count : Nat) : Sound R ⟨0, 0, count⟩ [] where
  qty_nonneg := le_rfl
  avg_nonneg := le_rfl
  flat _ := ⟨rfl, rfl⟩
  bought h := absurd h (lt_irrefl 0)
  zero h := absurd h (lt_irrefl 0)
  between h := absurd h (lt_irrefl 0)

theorem fill_buy (hqty : R.round (b.qty + qty) ≠ 0) : b.fill R.round ⟨qty, price, .buy⟩ =
      ⟨R.mean b.avgCost b.qty price qty, R.round (b.qty + qty), b.fillCount + 1⟩ := by
  rw [CostBasis.fill, CostBasis.applyFill]
  exact if_neg hqty

theorem filter_isBuy_buy : (since ++ [Fill.mk qty price .buy]).filter Fill.isBuy =
    since.filter Fill.isBuy ++ [Fill.mk qty price .buy] := by
  rw [List.filter_append]
  rfl

theorem filter_isBuy_sell :
    (since ++ [Fill.mk qty price .sell]).filter Fill.isBuy = since.filter Fill.isBuy := by
  rw [List.filter_append]
  exact List.append_nil _

theorem Sound.buy (h : Sound R b since) (hqty : 0 < qty) (hprice : 0 ≤ price) :
    Sound R ⟨R.mean b.avgCost b.qty price qty, R.round (b.qty + qty), b.fillCount + 1⟩
      (since ++ [Fill.mk qty price .buy]) where
  qty_nonneg := R.round_nonneg (add_nonneg h.qty_nonneg hqty.le)
  avg_nonneg := R.mean_nonneg h.avg_nonneg h.qty_nonneg hprice hqty
  flat hflat := absurd hflat (R.round_pos (add_pos_of_nonneg_of_pos h.qty_nonneg hqty)).ne'
  bought _ := by
    rw [filter_isBuy_buy]
    exact List.append_ne_nil_of_right_ne_nil _ (List.cons_ne_nil _ _)
  zero _ := by
    rw [filter_isBuy_buy, List.forall_mem_append, List.forall_mem_singleton,
      R.mean_eq_zero_iff h.avg_nonneg h.qty_nonneg hprice hqty]
    refine and_congr_left fun _ ↦ ?_
    rcases eq_or_lt_of_le h.qty_nonneg with hflat | hheld
    · rw [(h.flat hflat.symm).2, ← hflat, mul_zero]
      exact iff_of_true rfl fun f hf ↦ absurd hf List.not_mem_nil
    · rw [mul_eq_zero, or_iff_left hheld.ne', h.zero hheld]
  between _ := by
    intro lo hi h₀ hbounds
    rw [filter_isBuy_buy, List.forall_mem_append, List.forall_mem_singleton] at hbounds
    obtain ⟨hold, hnew⟩ := hbounds
    rw [filter_isBuy_buy, List.length_append, List.length_singleton, pow_succ, pow_succ,
      ← mul_assoc, ← mul_assoc]
    have hshrink : R.shrink ^ (since.filter Fill.isBuy).length ≤ 1 :=
      pow_le_one₀ R.shrink_nonneg R.shrink_le_one
    have hgrow : 1 ≤ R.grow ^ (since.filter Fill.isBuy).length := one_le_pow₀ R.one_le_grow
    have hhi : 0 ≤ hi := h₀.trans (hnew.1.trans hnew.2)
    refine R.mean_between h.qty_nonneg hqty (mul_nonneg h₀ (pow_nonneg R.shrink_nonneg _)) ?_ ?_
    · rcases eq_or_lt_of_le h.qty_nonneg with hflat | hheld
      · rw [← hflat, mul_zero, mul_zero, mul_zero]
        exact ⟨le_rfl, le_rfl⟩
      · obtain ⟨hlow, hhigh⟩ := h.between hheld lo hi h₀ hold
        exact ⟨mul_le_mul_of_nonneg_right hlow hheld.le, mul_le_mul_of_nonneg_right hhigh hheld.le⟩
    · exact ⟨(mul_le_of_le_one_right h₀ hshrink).trans hnew.1,
        hnew.2.trans (le_mul_of_one_le_right hhi hgrow)⟩

theorem Sound.sell (h : Sound R b since) (hqty : 0 < qty) (hleft : 0 < R.round (b.qty - qty)) :
    Sound R ⟨b.avgCost, R.round (b.qty - qty), b.fillCount + 1⟩ (since ++ [Fill.mk qty price .sell]) := by
  have hheld : 0 < b.qty := by
    by_contra hnot
    have hneg : b.qty - qty ≤ 0 := by linarith
    exact absurd hleft (not_lt.mpr (R.round_nonpos hneg))
  refine ⟨hleft.le, h.avg_nonneg, fun hflat ↦ absurd hflat hleft.ne', ?_, ?_, ?_⟩ <;>
    rw [filter_isBuy_sell]
  · exact fun _ ↦ h.bought hheld
  · exact fun _ ↦ h.zero hheld
  · exact fun _ ↦ h.between hheld

theorem Sound.step {f : Fill} (h : Sound R b since) (hqty : 0 < f.qty) (hprice : 0 ≤ f.price) :
    Sound R (sinceFlatStep R.round (b, since) f).1 (sinceFlatStep R.round (b, since) f).2 := by
  obtain ⟨qty, price, side⟩ := f
  rw [sinceFlatStep]
  cases side with
  | buy =>
    have hpos : 0 < R.round (b.qty + qty) :=
      R.round_pos (add_pos_of_nonneg_of_pos h.qty_nonneg hqty)
    simp only [fill_buy hpos.ne', if_neg hpos.ne']
    exact h.buy hqty hprice
  | sell =>
    simp only [CostBasis.fill, CostBasis.applyFill]
    by_cases hgone : R.round (b.qty - qty) ≤ 0
    · simp only [if_pos hgone, if_true]
      exact sound_flat _
    have hleft := not_le.mp hgone
    simp only [if_neg hgone, if_neg hleft.ne']
    exact h.sell hqty hleft

end Step

/-! ## A whole replay -/

/-- **What is well formed** about the average of a position: the quantity is not negative, and what a
further buy divides by is not zero; the average is zero when there is nothing, or when nothing was
paid, and it lies between the prices paid since the quantity was last zero, up to the rounding. -/
structure WellFormed (R : Rounding Decimal) (fills : List Fill) : Prop where
  nonneg : 0 ≤ (replayFills R.round fills).qty
  divisor : ∀ qty, 0 < qty → R.round ((replayFills R.round fills).qty + qty) ≠ 0
  zero : (replayFills R.round fills).avgCost = 0 ↔ (replayFills R.round fills).qty = 0 ∨
    ∀ f ∈ boughtSinceFlat R.round fills, f.price = 0
  bought : 0 < (replayFills R.round fills).qty → boughtSinceFlat R.round fills ≠ []
  between : 0 < (replayFills R.round fills).qty → ∀ lo hi, 0 ≤ lo →
    (∀ f ∈ boughtSinceFlat R.round fills, lo ≤ f.price ∧ f.price ≤ hi) →
      lo * R.shrink ^ (boughtSinceFlat R.round fills).length ≤ (replayFills R.round fills).avgCost ∧
        (replayFills R.round fills).avgCost ≤ hi * R.grow ^ (boughtSinceFlat R.round fills).length

variable {R : Rounding Decimal} {fills : List Fill}

theorem foldl_sinceFlatStep (rnd : Decimal → Decimal) (fills : List Fill) :
    fills.foldl (sinceFlatStep rnd) ({}, []) = (replayFills rnd fills, sinceFlat rnd fills) := by
  induction fills using List.reverseRecOn with
  | nil => rfl
  | append_singleton fills f ih =>
    rw [sinceFlat, replayFills_concat, List.foldl_append, ih]
    rfl

theorem sinceFlatStep_concat (rnd : Decimal → Decimal) (fills : List Fill) (f : Fill) :
    sinceFlatStep rnd (replayFills rnd fills, sinceFlat rnd fills) f =
      (replayFills rnd (fills ++ [f]), sinceFlat rnd (fills ++ [f])) := by
  rw [← foldl_sinceFlatStep, ← foldl_sinceFlatStep, List.foldl_append]
  rfl

theorem sound_replayFills (hfills : ∀ f ∈ fills, 0 < f.qty ∧ 0 ≤ f.price) :
    Sound R (replayFills R.round fills) (sinceFlat R.round fills) := by
  induction fills using List.reverseRecOn with
  | nil => exact sound_flat 0
  | append_singleton fills f ih =>
    rw [List.forall_mem_append, List.forall_mem_singleton] at hfills
    have hstep := (ih hfills.1).step hfills.2.1 hfills.2.2
    rw [sinceFlatStep_concat] at hstep
    exact hstep

theorem Sound.wellFormed (h : Sound R (replayFills R.round fills) (sinceFlat R.round fills)) :
    WellFormed R fills where
  nonneg := h.qty_nonneg
  divisor qty hqty := (R.round_pos (add_pos_of_nonneg_of_pos h.qty_nonneg hqty)).ne'
  zero := by
    rcases eq_or_lt_of_le h.qty_nonneg with hflat | hheld
    · exact iff_of_true (h.flat hflat.symm).1 (.inl hflat.symm)
    · rw [or_iff_right hheld.ne']
      exact h.zero hheld
  bought := h.bought
  between := h.between

/-- **The average of a replay is well formed** after every fill that it counts. -/
theorem average_wellFormed (R : Rounding Decimal) {commits : List GitCommit} {aliceId : String}
    (hfills : ∀ f ∈ countedFills commits aliceId, 0 < f.qty ∧ 0 ≤ f.price) :
    (costReplay R.round commits aliceId).basis =
        replayFills R.round (countedFills commits aliceId) ∧
      ∀ fills, fills <+: countedFills commits aliceId → WellFormed R fills := by
  refine ⟨basis_costReplay, fun fills hle ↦ ?_⟩
  exact (sound_replayFills fun f hf ↦ hfills f (hle.subset hf)).wellFormed

/-- The precision of `decimal.js`. -/
def decimalJs : Rounding Decimal := .significant 20 (by decide)

/-- A balance that is first seen, with as many digits as a chain has. -/
def firstSeen : TradingGit.ReconcileParams where
  aliceId := "acc|ETH"
  quantityDelta := 1317019930879489364 / 1000000000000000000
  markPrice := 99 / 10
  stateAfter := {}

def firstSeenLog : List GitCommit :=
  [⟨"hash", none, "reconcile", [firstSeen.operation], [firstSeen.result], {}, 0, none⟩]

theorem average_wellFormed_firstSeen : WellFormed decimalJs (countedFills firstSeenLog "acc|ETH") :=
  (average_wellFormed decimalJs (by decide +kernel)).2 _ (List.prefix_refl _)

/-- **The average leaves the prices** that it is the average of, in the last digit. -/
theorem average_above_prices : ¬ ∀ (commits : List GitCommit) (aliceId : String),
      (∀ f ∈ countedFills commits aliceId, 0 < f.qty ∧ 0 ≤ f.price) →
        ∀ hi, (∀ f ∈ boughtSinceFlat decimalJs.round (countedFills commits aliceId), f.price ≤ hi) →
          (costReplay decimalJs.round commits aliceId).basis.avgCost ≤ hi := by
  intro h
  have hle := h firstSeenLog "acc|ETH" (by decide +kernel) (99 / 10) (by decide +kernel)
  exact absurd hle (by decide +kernel)

end OpenAlice.Trading
