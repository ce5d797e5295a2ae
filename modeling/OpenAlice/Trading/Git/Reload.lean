import OpenAlice.Trading.Git.Export
import OpenAlice.Trading.Ledger.OrderRows

/-!
# Persisting and reloading a ledger

A ledger that is exported, written as JSON and restored exports the same file
again, and its log reads the same.  What it does not get back are `Decimal`s in two
places that `rehydrateOperation` and `rehydrateOrder` do not list: the changes of a
`modifyOrder`, and the filled quantity of an order.
-/

namespace OpenAlice.Trading.Live

/-! ## The file is the same -/

/-- A property of a whole order leaves a second time as it left. -/
theorem wire_rehydrateNumber {f : DecimalField} {n : Option Numeric}
    (h : ∀ d, n = some (.plain d) → f = .filledQuantity) :
    (wireNumber (some (rehydrateNumber f ((wireNumber n).map Numeric.value)))).map Numeric.value =
      (wireNumber n).map Numeric.value := by
  cases n with
  | none => exact congrArg (Option.map Numeric.value) wireNumber_unset
  | some m =>
    cases m with
    | plain d =>
      cases h d rfl
      rfl
    | decimal d =>
      by_cases hd : d = unsetDecimal
      · subst hd
        rw [wireNumber_unset]
        exact congrArg (Option.map Numeric.value) wireNumber_unset
      rw [wireNumber_decimal hd]
      cases f with
      | filledQuantity => rfl
      | _ => exact congrArg (Option.map Numeric.value) (wireNumber_decimal hd)

theorem number_json (o : JsOrder) (f : DecimalField) :
    number o.json f = (o.numbers f).map Numeric.value := by
  cases f <;> rfl

theorem order_ext {o o' : Order} (ha : o.action = o'.action) (ht : o.orderType = o'.orderType)
    (hf : o.tif = o'.tif) (hn : ∀ f, number o f = number o' f) : o = o' := by
  obtain ⟨_, _, _, _, _, _, _, _, _, _⟩ := o
  obtain ⟨_, _, _, _, _, _, _, _, _, _⟩ := o'
  have h₁ := hn .totalQuantity
  have h₂ := hn .cashQty
  have h₃ := hn .lmtPrice
  have h₄ := hn .auxPrice
  have h₅ := hn .trailStopPrice
  have h₆ := hn .trailingPercent
  have h₇ := hn .filledQuantity
  simp only [number] at h₁ h₂ h₃ h₄ h₅ h₆ h₇ ha ht hf
  simp only [ha, ht, hf, h₁, h₂, h₃, h₄, h₅, h₆, h₇]

theorem some_getD {t : Option String} (h : t.isSome = true) : some (t.getD "") = t := by
  cases t with
  | none => cases h
  | some t => rfl

theorem json_rehydrateOrder (o : WholeOrder) :
    (rehydrateOrder o.toWire.json).toWire.json = o.toWire.json := by
  obtain ⟨ha, ht, hf⟩ := o.complete
  refine order_ext (some_getD ha) (some_getD ht) (some_getD hf) fun f ↦ ?_
  rw [number_json, number_json]
  have hnumber : (rehydrateOrder o.toWire.json).numbers f =
      some (rehydrateNumber f ((wireNumber (o.numbers f)).map Numeric.value)) := by
    rw [← show number o.toWire.json f = (wireNumber (o.numbers f)).map Numeric.value from
      number_json _ f]
    rfl
  show (wireNumber ((rehydrateOrder o.toWire.json).numbers f)).map Numeric.value = _
  rw [hnumber]
  exact wire_rehydrateNumber (o.wrapped f)

theorem json_parsedOrder (o : Order) :
    (parsedOrder o).toWire.json = o ∧ (parsedOrder o).json = o := by
  constructor
  · refine order_ext rfl rfl rfl fun f ↦ ?_
    rw [number_json]
    show (wireNumber ((number o f).map .plain)).map Numeric.value = _
    cases number o f <;> rfl
  refine order_ext rfl rfl rfl fun f ↦ ?_
  rw [number_json]
  show ((number o f).map Numeric.plain).map Numeric.value = _
  cases number o f <;> rfl

theorem json_rehydrateOperation (op : JsOperation) :
    (rehydrateOperation op.project.json).project.json = op.project.json := by
  cases op with
  | placeOrder contract order tpsl =>
    exact congrArg (Operation.placeOrder contract · tpsl) (json_rehydrateOrder order)
  | observeExternalOrder contract order =>
    exact congrArg (Operation.observeExternalOrder contract ·) (json_rehydrateOrder order)
  | modifyOrder orderId changes =>
    exact congrArg (Operation.modifyOrder orderId ·) (json_parsedOrder _).1
  | closePosition contract quantity =>
    cases quantity <;> rfl
  | _ => rfl

theorem json_rehydrateGitState (s : JsState) : (rehydrateGitState s.json).json = s.json := by
  have hpositions : s.positions.map (JsPosition.json ∘ rehydratePosition ∘ JsPosition.json) =
      s.positions.map JsPosition.json :=
    List.map_congr_left fun p _ ↦ rfl
  have horders : s.pendingOrders.map (JsOpenOrder.json ∘ parsedOpenOrder ∘ JsOpenOrder.json) =
      s.pendingOrders.map JsOpenOrder.json := by
    refine List.map_congr_left fun o _ ↦ ?_
    simp only [Function.comp_apply, JsOpenOrder.json, parsedOpenOrder, (json_parsedOrder _).2]
  simp only [JsState.json, rehydrateGitState, List.map_map, hpositions, horders]

theorem json_rehydrateCommit (c : JsCommit) :
    (rehydrateCommit c.project.json).project.json = c.project.json := by
  have hoperations : c.operations.map
      (JsOperation.json ∘ JsOperation.project ∘ rehydrateOperation ∘ JsOperation.json ∘
        JsOperation.project) = c.operations.map (JsOperation.json ∘ JsOperation.project) :=
    List.map_congr_left fun op _ ↦ json_rehydrateOperation op
  simp only [JsCommit.json, JsCommit.project, rehydrateCommit, List.map_map, hoperations,
    json_rehydrateGitState]

theorem json_reload (g : JsGit) : g.reload.exportState.json = g.exportState.json := by
  have hcommits : g.commits.map (JsCommit.json ∘ JsCommit.project ∘ rehydrateCommit ∘
      JsCommit.json ∘ JsCommit.project) = g.commits.map (JsCommit.json ∘ JsCommit.project) :=
    List.map_congr_left fun c _ ↦ json_rehydrateCommit c
  simp only [JsGit.reload, restore, JsGit.exportState, Exported.json, List.map_map, hcommits]

/-! ## The log reads the same -/

/-- The log, as the projections read it: a number is read alike whether it is a
`Decimal` or not. -/
def JsGit.read (g : JsGit) : List GitCommit := g.commits.map JsCommit.json

theorem stripUnset_wireNumber (n : Option Numeric) :
    stripUnset ((wireNumber n).map Numeric.value) = stripUnset (n.map Numeric.value) := by
  unfold wireNumber
  split
  · rename_i d
    split
    · rename_i hd
      simp [stripUnset, Numeric.value, hd]
    · rfl
  · rfl

theorem toWire_json (o : JsOrder) : o.toWire.json.toWire = o.json.toWire := by
  simp only [Order.toWire, JsOrder.toWire, JsOrder.json, stripUnset_wireNumber]

theorem project_json (op : JsOperation) : op.project.json.project = op.json.project := by
  cases op with
  | placeOrder contract order tpsl =>
    exact congrArg (Operation.placeOrder contract · tpsl) (toWire_json order.toJsOrder)
  | observeExternalOrder contract order =>
    exact congrArg (Operation.observeExternalOrder contract ·) (toWire_json order.toJsOrder)
  | modifyOrder orderId changes =>
    exact congrArg (Operation.modifyOrder orderId ·) (toWire_json changes)
  | _ => rfl

theorem read_exportState (g : JsGit) :
    g.exportState.json.commits.map GitCommit.project = g.read.map GitCommit.project := by
  simp only [JsGit.exportState, Exported.json, JsGit.read, List.map_map]
  refine List.map_congr_left fun c _ ↦ ?_
  have hoperations : c.operations.map (Operation.project ∘ JsOperation.json ∘ JsOperation.project) =
      c.operations.map (Operation.project ∘ JsOperation.json) :=
    List.map_congr_left fun op _ ↦ project_json op
  simp only [Function.comp_apply, GitCommit.project, JsCommit.json, JsCommit.project, List.map_map,
    hoperations]

theorem read_reload (g : JsGit) :
    g.reload.read.map GitCommit.project = g.read.map GitCommit.project := by
  rw [← read_exportState, ← read_exportState, json_reload]

/-! ## The numbers that are `Decimal`s -/

/-- The properties of an operation that hold a quantity or a price. -/
inductive Slot where
  /-- Of the order, or of the changes to one. -/
  | order (f : DecimalField)
  | quantity

def JsOperation.number : JsOperation → Slot → Option Numeric
  | .placeOrder _ order _, .order f | .observeExternalOrder _ order, .order f => order.numbers f
  | .modifyOrder _ changes, .order f => changes.numbers f
  | .closePosition _ quantity, .quantity => quantity
  | _, _ => none

/-- Where the first has a `Decimal` the second has an equal one. -/
def KeepsDecimals (op op' : JsOperation) : Prop :=
  ∀ slot d, op.number slot = some (.decimal d) → op'.number slot = some (.decimal d)

structure KeepsCommit (c c' : JsCommit) : Prop where
  operations : List.Forall₂ KeepsDecimals c.operations c'.operations
  positions : List.Forall₂
    (fun p p' : JsPosition ↦ ∀ d, p.quantity = .decimal d → p'.quantity = .decimal d)
    c.stateAfter.positions c'.stateAfter.positions

/-- **Persisting and reloading a ledger loses nothing**: the reloaded ledger exports
the same JSON, its log reads the same, and every `Decimal` of its operations and
positions is there again. -/
structure LosesNothing (rnd : Decimal → Decimal) (g : JsGit) : Prop where
  json : g.reload.exportState.json = g.exportState.json
  pending : getPendingOrderIds g.reload.read = getPendingOrderIds g.read
  known : getKnownOrderIds g.reload.read = getKnownOrderIds g.read
  costBasis : ∀ aliceId, recomputeCostBasisFromCommits rnd g.reload.read aliceId =
    recomputeCostBasisFromCommits rnd g.read aliceId
  history : ∀ limit, projectOrderHistory g.reload.read limit = projectOrderHistory g.read limit
  decimals : List.Forall₂ KeepsCommit g.commits g.reload.commits

/-- A property that `rehydrateOrder` lists comes back as a `Decimal`. -/
theorem rehydrateNumber_decimal {f : DecimalField} {d : Decimal}
    (h : f = .filledQuantity → d = unsetDecimal) :
    rehydrateNumber f ((wireNumber (some (.decimal d))).map Numeric.value) = .decimal d := by
  by_cases hd : d = unsetDecimal
  · subst hd
    rw [wireNumber_unset]
    cases f <;> rfl
  rw [wireNumber_decimal hd]
  cases f with
  | filledQuantity => exact absurd (h rfl) hd
  | _ => rfl

/-- The operations whose `Decimal`s come back: changes that hold none, and orders
whose filled quantity is not one, or is the sentinel. -/
def JsOperation.Listed : JsOperation → Prop
  | .placeOrder _ order _ | .observeExternalOrder _ order =>
    ∀ d, order.numbers .filledQuantity = some (.decimal d) → d = unsetDecimal
  | .modifyOrder _ changes => ∀ f d, changes.numbers f ≠ some (.decimal d)
  | _ => True

theorem rehydrateOrder_iff (o : WholeOrder) : (∀ f d, o.numbers f = some (.decimal d) →
      (rehydrateOrder o.toWire.json).numbers f = some (.decimal d)) ↔
      ∀ d, o.numbers .filledQuantity = some (.decimal d) → d = unsetDecimal := by
  have hnumber : ∀ f, (rehydrateOrder o.toWire.json).numbers f =
      some (rehydrateNumber f ((wireNumber (o.numbers f)).map Numeric.value)) := by
    intro f
    rw [← show Live.number o.toWire.json f = (wireNumber (o.numbers f)).map Numeric.value from
      number_json _ f]
    rfl
  simp only [hnumber, Option.some.injEq]
  constructor
  · intro h d hd
    have hback := h .filledQuantity d hd
    rw [hd] at hback
    by_contra hne
    rw [wireNumber_decimal hne] at hback
    cases hback
  · intro h f d hd
    rw [hd]
    refine rehydrateNumber_decimal ?_
    rintro rfl
    exact h d hd

theorem keepsDecimals_iff (op : JsOperation) :
    KeepsDecimals op (rehydrateOperation op.project.json) ↔ op.Listed := by
  have hslots : ∀ op' : JsOperation, (∀ d, op.number .quantity = some (.decimal d) →
      op'.number .quantity = some (.decimal d)) → ((∀ f d, op.number (.order f) = some (.decimal d) →
        op'.number (.order f) = some (.decimal d)) ↔ KeepsDecimals op op') := by
    intro op' hq
    constructor
    · rintro h (f | _) d hd
      · exact h f d hd
      · exact hq d hd
    · exact fun h f d hd ↦ h (.order f) d hd
  rw [← hslots _ ?_]
  · cases op with
    | placeOrder contract order tpsl => exact rehydrateOrder_iff order
    | observeExternalOrder contract order => exact rehydrateOrder_iff order
    | modifyOrder orderId changes =>
      constructor
      · intro h f d hd
        have hback := h f d hd
        simp only [JsOperation.project, JsOperation.json, rehydrateOperation, JsOperation.number,
          parsedOrder, Option.map_eq_some_iff] at hback
        obtain ⟨_, _, he⟩ := hback
        cases he
      · exact fun h f d hd ↦ absurd hd (h f d)
    | _ =>
      simp only [JsOperation.number, reduceCtorEq, false_implies, implies_true, true_iff]
      exact trivial
  · intro d hd
    cases op with
    | closePosition contract quantity =>
      cases hd
      rfl
    | _ => cases hd

/-- **A ledger is reloaded without loss exactly when** no `modifyOrder` of its log
holds a `Decimal`, and no order of its log a filled quantity that is one. -/
theorem loses_nothing_iff (rnd : Decimal → Decimal) (g : JsGit) :
    LosesNothing rnd g ↔ ∀ c ∈ g.commits, ∀ op ∈ c.operations, op.Listed := by
  have hproject : g.reload.commits = g.commits.map fun c ↦ rehydrateCommit c.project.json := by
    simp only [JsGit.reload, restore, JsGit.exportState, Exported.json, List.map_map]
    rfl
  have hcommit : ∀ c : JsCommit, KeepsCommit c (rehydrateCommit c.project.json) ↔
      ∀ op ∈ c.operations, op.Listed := by
    intro c
    have hops : List.Forall₂ KeepsDecimals c.operations
        (rehydrateCommit c.project.json).operations ↔ ∀ op ∈ c.operations, op.Listed := by
      simp only [rehydrateCommit, JsCommit.json, JsCommit.project, List.map_map,
        List.forall₂_map_right_iff, List.forall₂_same, Function.comp_apply, keepsDecimals_iff]
    constructor
    · exact fun h ↦ hops.mp h.operations
    intro h
    refine ⟨hops.mpr h, ?_⟩
    simp only [rehydrateCommit, JsCommit.json, JsCommit.project, rehydrateGitState, JsState.json,
      List.map_map, List.forall₂_map_right_iff, List.forall₂_same]
    intro p _ d hd
    simp only [Function.comp_apply, rehydratePosition, JsPosition.json, hd, Numeric.value]
  have hdecimals : List.Forall₂ KeepsCommit g.commits g.reload.commits ↔
      ∀ c ∈ g.commits, ∀ op ∈ c.operations, op.Listed := by
    simp only [hproject, List.forall₂_map_right_iff, List.forall₂_same, hcommit]
  have hread := read_reload g
  constructor
  · exact fun h ↦ hdecimals.mp h.decimals
  intro h
  refine ⟨json_reload g, ?_, ?_, ?_, ?_, hdecimals.mpr h⟩
  · rw [← getPendingOrderIds_project, hread, getPendingOrderIds_project]
  · rw [← getKnownOrderIds_project, hread, getKnownOrderIds_project]
  · intro aliceId
    simp only [recomputeCostBasisFromCommits, ← costReplay_project g.reload.read,
      ← costReplay_project g.read, hread]
  · intro limit
    rw [← projectOrderHistory_project, hread, projectOrderHistory_project]

def limitPrice (d : Decimal) : DecimalField → Option Numeric
  | .lmtPrice => some (.decimal d)
  | _ => none

def modified : JsCommit where
  hash := "00000000"
  parentHash := none
  message := "raise the limit"
  operations := [.modifyOrder "1" { numbers := limitPrice 150 }]
  results := [{ action := .modifyOrder, success := true, orderId := some "1", status := .submitted }]
  stateAfter := {}
  timestamp := 1
  round := none

/-- The limit price of a modification comes back as a text. -/
theorem not_loses_nothing :
    ¬ ∀ (rnd : Decimal → Decimal) (g : JsGit), Reachable g → LosesNothing rnd g := by
  intro h
  have hback := (h id _ (.appended modified .new)).decimals
  cases hback with
  | cons hcommit _ =>
    cases hcommit.operations with
    | cons hop _ => cases hop (.order .lmtPrice) 150 rfl

end OpenAlice.Trading.Live
