import OpenAlice.Trading.Git.Export

/-!
# The sentinel at the boundary of a ledger

`toWire` strips the sentinel of every order that an operation carries.  The snapshot
stored with a commit carries orders too, and goes out as the broker gave it.
-/

namespace OpenAlice.Trading.Live

/-- A `Decimal` field of the order is the sentinel. -/
def Tainted (o : JsOrder) : Prop := ∃ f, o.numbers f = some (.decimal unsetDecimal)

def JsOperation.orders : JsOperation → List JsOrder
  | .placeOrder _ order _ | .observeExternalOrder _ order => [order.toJsOrder]
  | .modifyOrder _ changes => [changes]
  | _ => []

def JsCommit.orders (c : JsCommit) : List JsOrder :=
  c.operations.flatMap JsOperation.orders ++ c.stateAfter.pendingOrders.map JsOpenOrder.order

/-- **No sentinel leaves the ledger**, through `status`, `show` or `exportState`. -/
structure NoSentinel (g : JsGit) : Prop where
  status : ∀ op ∈ g.status.staged, ∀ o ∈ op.orders, ¬ Tainted o
  shown : ∀ hash c, g.show hash = some c → ∀ o ∈ c.orders, ¬ Tainted o
  exported : ∀ c ∈ g.exportState.commits, ∀ o ∈ c.orders, ¬ Tainted o

/-- `toWire` leaves no sentinel. -/
theorem not_tainted_toWire (o : JsOrder) : ¬ Tainted o.toWire := by
  rintro ⟨f, hf⟩
  have hwire : wireNumber (o.numbers f) = some (.decimal unsetDecimal) := hf
  unfold wireNumber at hwire
  split at hwire
  · rename_i d
    split at hwire
    · cases hwire
    rename_i hd
    cases hwire
    exact hd rfl
  · rename_i hn
    exact hn unsetDecimal hwire

theorem not_tainted_project {op : JsOperation} {o : JsOrder} (h : o ∈ op.project.orders) :
    ¬ Tainted o := by
  cases op with
  | placeOrder contract order tpsl =>
    cases List.mem_singleton.mp h
    exact not_tainted_toWire order.toJsOrder
  | observeExternalOrder contract order =>
    cases List.mem_singleton.mp h
    exact not_tainted_toWire order.toJsOrder
  | modifyOrder orderId changes =>
    cases List.mem_singleton.mp h
    exact not_tainted_toWire changes
  | _ => cases h

theorem project_clean_iff (c : JsCommit) :
    (∀ o ∈ c.project.orders, ¬ Tainted o) ↔ ∀ o ∈ c.stateAfter.pendingOrders, ¬ Tainted o.order := by
  constructor
  · exact fun h o ho ↦ h o.order (List.mem_append_right _ (List.mem_map_of_mem ho))
  intro h o ho
  rcases List.mem_append.mp ho with ho | ho
  · obtain ⟨op', hop', ho⟩ := List.mem_flatMap.mp ho
    obtain ⟨op, _, rfl⟩ := List.mem_map.mp hop'
    exact not_tainted_project ho
  · obtain ⟨open', hopen, rfl⟩ := List.mem_map.mp ho
    exact h open' hopen

/-- **No sentinel leaves the ledger exactly when** no pending order of a snapshot in
its log has one. -/
theorem no_sentinel_iff (g : JsGit) :
    NoSentinel g ↔ ∀ c ∈ g.commits, ∀ o ∈ c.stateAfter.pendingOrders, ¬ Tainted o.order := by
  constructor
  · intro h c hc
    rw [← project_clean_iff]
    exact h.exported c.project (List.mem_map_of_mem hc)
  intro h
  constructor
  · intro op hop o ho
    obtain ⟨op₀, _, rfl⟩ := List.mem_map.mp hop
    exact not_tainted_project ho
  · intro hash c hc
    obtain ⟨c₀, hfind, rfl⟩ := Option.map_eq_some_iff.mp hc
    rw [project_clean_iff]
    exact h c₀ (List.mem_of_find?_eq_some hfind)
  · intro c hc
    obtain ⟨c₀, hmem, rfl⟩ := List.mem_map.mp hc
    rw [project_clean_iff]
    exact h c₀ hmem

/-! ## The snapshot of an account -/

/-- `_getState`, from what the broker answered: the contracts under their alice ids,
and the orders that still work. -/
def getState (stampAliceId : Contract → String) (account : JsState) (positions : List JsPosition)
    (orders : List JsOpenOrder) : JsState :=
  let stamp (c : Contract) : Contract := { c with aliceId := some (stampAliceId c) }
  { account with
    positions := positions.map fun p ↦ { p with rest := { p.rest with contract := stamp p.rest.contract } }
    pendingOrders :=
      (orders.filter fun o ↦ o.orderState.status = "Submitted" ∨ o.orderState.status = "PreSubmitted").map
        fun o ↦ { o with contract := stamp o.contract } }

/-- `new Order()` with a limit price. -/
def newOrder (lmtPrice : Decimal) : JsOrder where
  action := some "BUY"
  orderType := some "LMT"
  tif := some "DAY"
  numbers
    | .lmtPrice => some (.decimal lmtPrice)
    | _ => some (.decimal unsetDecimal)

/-- A sync after which another order is still open at the broker. -/
def pending : JsCommit where
  hash := "00000000"
  parentHash := none
  message := "[sync] AAPL filled"
  operations := [.syncOrders]
  results := [{ action := .syncOrders, success := true, orderId := some "2", status := .filled,
                filledQty := some 1, filledPrice := some 100, symbol := some "AAPL" }]
  stateAfter := getState (fun _ ↦ "acct|AAPL") {} []
    [{ contract := {}, order := newOrder 100, orderState := { status := "Submitted" },
       orderId := some "1" }]
  timestamp := 1
  round := none

/-- An open order goes out with the sentinel in its unused fields. -/
theorem not_no_sentinel : ¬ ∀ g : JsGit, Reachable g → NoSentinel g := by
  intro h
  have hclean := (h _ (.appended pending .new)).exported pending.project (List.mem_singleton_self _)
  exact hclean (newOrder 100) (List.mem_append_right _ (List.mem_singleton_self _)) ⟨.auxPrice, rfl⟩

end OpenAlice.Trading.Live
