import Mathlib.Algebra.Order.Field.Basic
import Mathlib.Tactic.Linarith
import Mathlib.Tactic.FieldSimp
import OpenAlice.Trading.Risk.RateLimits

/-!
# The exposure cap

A check projects the exposure of one order: the positions of its native key at their market values,
and the notional of the order itself.  An order that was admitted before and rests at the broker is
in neither.  So every order that is admitted stays within the cap together with the position
(`WithinCap`), and what a batch of them adds up to grows with the number of its orders.

`admitted` is read by no step.
-/

namespace OpenAlice.Trading.Risk

open OpenAlice.Run

/-- An order whose check consumed a slot, and what the broker answered to the check. -/
structure Admission where
  contract : Contract
  order : Order
  account : AccountInfo
  positions : List Position
  quote : Quote
deriving DecidableEq

/-- The controller and the orders it admitted. -/
structure ExposureWorld where
  risk : RiskWorld
  admitted : List Admission := []

variable (cfg : RiskConfig)

/-! ## What a check projects -/

namespace Admission

variable (a : Admission)

def orderNotional : Decimal :=
  let reference := (referencePrice a.order.action a.quote).toOption.getD 0
  let quantity := (required a.order.totalQuantity .noQuantity).toOption.getD 0
  cfg.round (cfg.round (quantity * reference) * a.contract.multiplier.getD 1)

def positionValue : Decimal :=
  let nativeKey := cfg.getNativeKey a.contract
  let held := a.positions.filter fun p ↦ cfg.getNativeKey p.contract = nativeKey
  held.foldl (fun sum p ↦ cfg.round (sum + |p.marketValue|)) 0

def exposurePercent : Decimal :=
  let projectedExposure := cfg.round (a.positionValue cfg + a.orderNotional cfg)
  cfg.round (cfg.round (projectedExposure / a.account.netLiquidation) * 100)

end Admission

def capOf (a : Admission) : Decimal :=
  cfg.policy.maxSymbolExposurePercent / 100 * a.account.netLiquidation

/-- **The order is within the cap** together with the position. -/
structure WithinCap (a : Admission) : Prop where
  equity : 0 < a.account.netLiquidation
  exposure : a.exposurePercent cfg ≤ cfg.policy.maxSymbolExposurePercent

/-- Orders of one native key, checked while the broker's answers stay the same. -/
structure SameMarket (batch : List Admission) : Prop where
  nativeKey : ∀ a ∈ batch, ∀ b ∈ batch, cfg.getNativeKey a.contract = cfg.getNativeKey b.contract
  account : ∀ a ∈ batch, ∀ b ∈ batch, a.account = b.account
  positions : ∀ a ∈ batch, ∀ b ∈ batch, a.positions = b.positions
  quote : ∀ a ∈ batch, ∀ b ∈ batch, a.quote = b.quote

def batchNotional : List Admission → Decimal
  | [] => 0
  | a :: batch => a.orderNotional cfg + batchNotional batch

/-! ## The machine -/

def admits (W W' : RiskWorld) : RiskEvent → Option Admission
  | .run _ (.resume i (.market account positions quote)) =>
    match W.tasks[i]?, W'.tasks[i]? with
    | some (.reading contract order), some (.mkdir .settle) =>
      some ⟨contract, order, account, positions, quote⟩
    | _, _ => none
  | _ => none

def exposureStep (W : ExposureWorld) (e : RiskEvent) : Option ExposureWorld :=
  (riskStep cfg W.risk e).map fun risk ↦ ⟨risk, W.admitted ++ (admits W.risk risk e).toList⟩

variable {cfg} {a : Admission} {batch : List Admission}

/-! ## One check -/

theorem demand_eq_ok {holds : Bool} {refusal : Refusal} (h : demand holds refusal = .ok ()) :
    holds = true := by
  rw [demand] at h
  split_ifs at h with hholds
  exact hholds

theorem bind_eq_ok {α β : Type} {x : Except Refusal α} {f : α → Except Refusal β} {b : β}
    (h : (x >>= f) = .ok b) : ∃ v, x = .ok v ∧ f v = .ok b := by
  cases x with
  | error r => cases h
  | ok v => exact ⟨v, rfl, h⟩

theorem withinCap_of_assess {now : Timestamp}
    (h : assess cfg now a.contract a.order a.account a.positions a.quote = .ok ()) :
    WithinCap cfg a := by
  rw [assess] at h
  obtain ⟨_, -, h⟩ := bind_eq_ok h
  obtain ⟨reference, hreference, h⟩ := bind_eq_ok h
  obtain ⟨_, -, h⟩ := bind_eq_ok h
  obtain ⟨_, -, h⟩ := bind_eq_ok h
  obtain ⟨quantity, hquantity, h⟩ := bind_eq_ok h
  obtain ⟨_, -, h⟩ := bind_eq_ok h
  obtain ⟨_, -, h⟩ := bind_eq_ok h
  obtain ⟨_, hequity, hexposure⟩ := bind_eq_ok h
  refine ⟨of_decide_eq_true (demand_eq_ok hequity), ?_⟩
  have hnotional : a.orderNotional cfg =
      cfg.round (cfg.round (quantity * reference) * a.contract.multiplier.getD 1) := by
    simp only [Admission.orderNotional, hreference, hquantity, Except.toOption, Option.getD_some]
  rw [Admission.exposurePercent, hnotional]
  exact of_decide_eq_true (demand_eq_ok hexposure)

theorem assess_of_judge {S : Shared}
    (h : (judge cfg S a.contract a.order a.account a.positions a.quote).2 = .mkdir .settle) :
    assess cfg S.clock a.contract a.order a.account a.positions a.quote = .ok () := by
  rw [judge] at h
  split at h
  · cases h
  · assumption

theorem withinCap_of_admits {W W' : RiskWorld} {e : RiskEvent} (ha : admits W W' e = some a)
    (hstep : riskStep cfg W e = some W') : WithinCap cfg a := by
  rw [admits.eq_def] at ha
  split at ha
  · rename_i now i account positions quote
    rw [riskStep] at hstep
    split_ifs at hstep
    obtain ⟨k, S', k', hi, hresume, rfl⟩ := Prog.step_resume hstep
    split at ha
    · rename_i contract order hreading hreserved
      cases ha
      cases hi.symm.trans hreading
      have hlt : i < W.tasks.length := (List.getElem?_eq_some_iff.mp hreading).1
      have hk : k' = .mkdir .settle := by
        simpa [tick, hlt] using hreserved
      have hjudge := Option.some.inj hresume
      refine withinCap_of_assess (assess_of_judge (S := (tick W now).shared) ?_)
      rw [hjudge, hk]
    · cases ha
  · cases ha

/-! ## A batch -/

theorem SameMarket.positionValue_eq (h : SameMarket cfg batch) {b : Admission} (ha : a ∈ batch)
    (hb : b ∈ batch) : a.positionValue cfg = b.positionValue cfg := by
  rw [Admission.positionValue, Admission.positionValue, h.nativeKey a ha b hb, h.positions a ha b hb]

theorem WithinCap.orderNotional_le (h : WithinCap cfg a) (hround : ∀ d, cfg.round d = d) :
    a.orderNotional cfg ≤ capOf cfg a - a.positionValue cfg := by
  have hexposure := h.exposure
  rw [Admission.exposurePercent, hround, hround, hround] at hexposure
  have hcap : a.positionValue cfg + a.orderNotional cfg ≤ capOf cfg a := by
    rw [capOf, ← div_le_iff₀ h.equity]
    linarith
  linarith

/-- **A batch of `n` orders** has that room `n` times. -/
theorem batchNotional_le {room : Decimal} (h : ∀ a ∈ batch, a.orderNotional cfg ≤ room) :
    batchNotional cfg batch ≤ batch.length * room := by
  induction batch with
  | nil =>
    rw [batchNotional, List.length_nil, Nat.cast_zero, zero_mul]
  | cons a batch ih =>
    rw [List.forall_mem_cons] at h
    rw [batchNotional, List.length_cons, Nat.cast_succ, add_mul, one_mul, add_comm]
    exact add_le_add (ih h.2) h.1

/-! ## Every run -/

theorem withinCap_step {W W' : ExposureWorld} {e : RiskEvent}
    (h : ∀ a ∈ W.admitted, WithinCap cfg a) (hstep : exposureStep cfg W e = some W') :
    ∀ a ∈ W'.admitted, WithinCap cfg a := by
  obtain ⟨risk, hrisk, rfl⟩ := Option.map_eq_some_iff.mp hstep
  intro a ha
  rcases List.mem_append.mp ha with ha | ha
  · exact h a ha
  · exact withinCap_of_admits (Option.mem_toList.mp ha) hrisk

/-- **The exposure cap bounds every order**, in every run: an order that is admitted stays within
the cap together with the position.  In exact arithmetic, `n` orders of one market add up to at most
`n` times the room that the position leaves below the cap. -/
theorem exposure_cap {W₀ : RiskWorld} {W : ExposureWorld}
    (h : Reach (exposureStep cfg) anyStep ⟨W₀, []⟩ W) :
    (∀ a ∈ W.admitted, WithinCap cfg a) ∧
      ∀ batch, batch.Sublist W.admitted → SameMarket cfg batch → (∀ d, cfg.round d = d) →
        ∀ a ∈ batch,
          batchNotional cfg batch ≤ batch.length * (capOf cfg a - a.positionValue cfg) := by
  have hcap : ∀ a ∈ W.admitted, WithinCap cfg a := by
    refine h.invariant ?_ fun _ _ _ hW _ hstep ↦ withinCap_step hW hstep
    rintro a ⟨⟩
  refine ⟨hcap, fun batch hbatch hmarket hround a ha ↦ batchNotional_le fun b hb ↦ ?_⟩
  have hb' := (hcap b (hbatch.subset hb)).orderNotional_le hround
  rwa [capOf, hmarket.account b hb a ha, hmarket.positionValue_eq hb ha] at hb'

/-! ## Two orders at rest -/

/-- Two orders an hour, and room for one and a half of them. -/
def cappedConfig : RiskConfig where
  policy :=
    { sampleConfig.policy with maxSymbolExposurePercent := 3 / 20, maxOrdersPerHour := 2 }
  round := id
  getNativeKey contract := contract.symbol

def sampleAdmission : Admission where
  contract := sampleContract
  order := sampleOrder
  account := { netLiquidation := 100000 }
  positions := []
  quote := ⟨some 1000, some 99, some 100, some 100⟩

def bothChecked : ExposureWorld :=
  after (exposureStep cappedConfig) ⟨.built 0, []⟩ (checked 0 1000 ++ checked 1 1000)

theorem reach_both : Reach (exposureStep cappedConfig) anyStep ⟨.built 0, []⟩ bothChecked :=
  .of_after _ (by decide +kernel) fun _ _ _ ↦ trivial

theorem admitted_both : bothChecked.admitted = [sampleAdmission, sampleAdmission] := by
  decide +kernel

theorem sameMarket_both : SameMarket cappedConfig [sampleAdmission, sampleAdmission] := by
  have hboth : ∀ a ∈ [sampleAdmission, sampleAdmission], a = sampleAdmission := by
    simp
  refine ⟨?_, ?_, ?_, ?_⟩ <;>
  · intro a ha b hb
    rw [hboth a ha, hboth b hb]

/-- Two orders of 100 add up to at most twice the room of 150. -/
theorem exposure_cap_both : batchNotional cappedConfig [sampleAdmission, sampleAdmission] ≤
    2 * (capOf cappedConfig sampleAdmission - sampleAdmission.positionValue cappedConfig) := by
  exact (exposure_cap reach_both).2 _ (admitted_both ▸ .refl _) sameMarket_both (fun _ ↦ rfl) _ (.head _)

/-- **The cap does not bound the batch**: two orders of 100 are admitted below a cap of 150. -/
theorem batch_exceeds_cap : ¬ ∀ (cfg : RiskConfig) (W₀ : RiskWorld) (W : ExposureWorld),
    Reach (exposureStep cfg) anyStep ⟨W₀, []⟩ W →
      ∀ batch, batch.Sublist W.admitted → SameMarket cfg batch →
        ∀ a ∈ batch, a.positionValue cfg + batchNotional cfg batch ≤ capOf cfg a := by
  intro hall
  have hle := hall cappedConfig _ _ reach_both _ (admitted_both ▸ .refl _) sameMarket_both _ (.head _)
  exact absurd hle (by decide +kernel)

end OpenAlice.Trading.Risk
