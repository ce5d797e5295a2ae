import Mathlib.Algebra.BigOperators.Group.Finset.Basic
import OpenAlice.Trading.Account.Recorded

/-!
# What the broker holds, and what the log accounts for

What orders have changed about the holding of an instrument is a sum over their
ids, and it depends on the set of the ids only.  The ids are those that had
filled when the broker computed its positions on one side, and those the log
reports filled on the other: where the two sets agree on the orders of the
instrument, the position and the log agree.
-/

namespace OpenAlice.Trading.Passes

open OpenAlice.Run OpenAlice.Trading.Git TradingGit

/-! ## The holding of an instrument -/

def BrokerOrder.signed (o : BrokerOrder) : Decimal :=
  match o.fate, o.side with
  | .filled qty _, .buy => qty
  | .filled qty _, .sell => -qty
  | _, _ => 0

variable (cfg : PassConfig) (orders : List BrokerOrder) (aliceId : String)

def delta (id : String) : Decimal :=
  match orders.find? fun o ↦ o.id = id with
  | some o => if cfg.stampAliceId o.contract = aliceId then o.signed else 0
  | none => 0

def changes (ids : List String) : Decimal := ∑ id ∈ ids.toFinset, delta cfg orders aliceId id

/-- The holding of an instrument at the broker: what was `held` when the account
was connected, and what its orders have changed since. -/
def holding (held : String → Decimal) : Decimal :=
  held aliceId + changes cfg orders aliceId (filledIds orders)

variable {cfg orders aliceId}

theorem order_of_delta {id : String} (h : delta cfg orders aliceId id ≠ 0) :
    ∃ o ∈ orders, o.id = id ∧ cfg.stampAliceId o.contract = aliceId ∧
      ∃ qty price, o.fate = .filled qty price := by
  unfold delta at h
  split at h
  · rename_i o ho
    split at h
    · rename_i hs
      refine ⟨o, List.mem_of_find?_eq_some ho, by simpa using List.find?_some ho, hs, ?_⟩
      cases hfate : o.fate with
      | filled qty price => exact ⟨qty, price, rfl⟩
      | working | closed => exact absurd (by rw [BrokerOrder.signed, hfate]) h
    · exact absurd rfl h
  · exact absurd rfl h

theorem delta_eq {o : BrokerOrder} (ho : o ∈ orders)
    (hunique : ∀ o ∈ orders, ∀ o' ∈ orders, o.id = o'.id → o = o') :
    delta cfg orders aliceId o.id =
      if cfg.stampAliceId o.contract = aliceId then o.signed else 0 := by
  have hfind : orders.find? (fun o' ↦ o'.id = o.id) = some o := by
    cases hf : orders.find? (fun o' ↦ o'.id = o.id) with
    | none => simpa using List.find?_eq_none.mp hf o ho
    | some o' =>
      have hid : o'.id = o.id := by simpa using List.find?_some hf
      rw [hunique o' (List.mem_of_find?_eq_some hf) o ho hid]
  rw [delta, hfind]

theorem delta_apply {e : BrokerEvent} {id : String}
    (hended : ∀ o ∈ orders, o.id = id → o.fate ≠ .working)
    (hnew : ∀ contract side, e ≠ .accepts id contract side) :
    delta cfg (e.apply orders) aliceId id = delta cfg orders aliceId id := by
  have hsettle : ∀ (id' : String) (fate : Fate),
      delta cfg (orders.map (BrokerOrder.settle id' fate)) aliceId id =
        delta cfg orders aliceId id := by
    intro id' fate
    have hkeeps : ∀ o : BrokerOrder, (o.settle id' fate).id = o.id := by
      intro o
      simp only [BrokerOrder.settle]
      split <;> rfl
    simp only [delta, List.find?_map, Function.comp_def, hkeeps]
    cases hf : orders.find? fun o ↦ o.id = id with
    | none => rfl
    | some o =>
      have hid : o.id = id := by simpa using List.find?_some hf
      have hsame : o.settle id' fate = o := by
        rw [BrokerOrder.settle, if_neg]
        rintro ⟨_, hw⟩
        exact hended o (List.mem_of_find?_eq_some hf) hid hw
      simp only [Option.map_some, hsame]
  cases e with
  | accepts id' contract side =>
    have hne : id' ≠ id := by
      rintro rfl
      exact hnew contract side rfl
    simp [delta, BrokerEvent.apply, List.find?_append, hne]
  | fills id' qty price => exact hsettle id' _
  | closes id' => exact hsettle id' _

theorem changes_congr {ids ids' : List String}
    (h : ∀ id, delta cfg orders aliceId id ≠ 0 → (id ∈ ids ↔ id ∈ ids')) :
    changes cfg orders aliceId ids = changes cfg orders aliceId ids' := by
  rw [changes, changes, ← Finset.sum_filter_ne_zero, ← Finset.sum_filter_ne_zero (s := ids'.toFinset)]
  refine Finset.sum_congr ?_ fun _ _ ↦ rfl
  ext id
  simp only [Finset.mem_filter, List.mem_toFinset]
  constructor
  · rintro ⟨hid, hne⟩
    exact ⟨(h id hne).mp hid, hne⟩
  · rintro ⟨hid, hne⟩
    exact ⟨(h id hne).mpr hid, hne⟩

theorem changes_concat {ids : List String} {id : String} (h : id ∉ ids) :
    changes cfg orders aliceId (ids ++ [id]) =
      changes cfg orders aliceId ids + delta cfg orders aliceId id := by
  have hset : (ids ++ [id]).toFinset = insert id ids.toFinset := by
    ext x
    simp
  rw [changes, hset, Finset.sum_insert (by simpa using h), add_comm]
  rfl

end OpenAlice.Trading.Passes
