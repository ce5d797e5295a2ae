import OpenAlice.Trading.Git.TradingGit

/-!
# Reading the commit log

What the projections of the log have in common
(`services/uta/src/domain/trading/cost-basis.ts`, `order-history.ts` and
`TradingGit.getPendingOrderIds`): an operation is joined with the result at its
place, an order id with the operation that introduced it, and a row of a sync,
which carries an order id and no contract, with the operation of that id.

A JavaScript `Map` that a loop fills with `set` is the list of the pairs set, in
order: the last pair of a key is the one read.
-/

namespace OpenAlice.Trading

/-- The two sides of a fill: `'buy' | 'sell'` of the cost basis, `'BUY' | 'SELL'`
of the histories. -/
inductive TradeSide where
  | buy
  | sell
deriving DecidableEq

def TradeSide.opposite : TradeSide → TradeSide
  | .buy => .sell
  | .sell => .buy

/-- `action.toUpperCase() === 'SELL'`.  Besides its two cases, the letter S is
the upper case of the long s. -/
def upperCaseIsSell (action : String) : Bool :=
  match action.toList with
  | [s, e, l, l'] =>
    ['S', 's', 'ſ'].contains s && ['E', 'e'].contains e && ['L', 'l'].contains l &&
      ['L', 'l'].contains l'
  | _ => false

def Order.side (o : Order) : TradeSide :=
  if upperCaseIsSell (o.action.getD "") then .sell else .buy

/-! ## Operations and their results -/

/-- `operations[i]` with `results[i]`, for every operation. -/
def paired : List Operation → List OperationResult → List (Operation × Option OperationResult)
  | [], _ => []
  | op :: ops, [] => (op, none) :: paired ops []
  | op :: ops, r :: rs => (op, some r) :: paired ops rs

def GitCommit.pairs (c : GitCommit) : List (Operation × Option OperationResult) :=
  paired c.operations c.results

/-- A commit one of whose operations is `syncOrders`: its results are the rows
of the sync, not the results of its operations. -/
def GitCommit.isSync (c : GitCommit) : Bool :=
  c.operations.any (· = .syncOrders)

def resultId (r : OperationResult) : Option String := truthy r.orderId

def OperationResult.fill? (r : OperationResult) : Option (Decimal × Decimal) :=
  match r.filledQty, r.filledPrice with
  | some qty, some price => some (qty, price)
  | _, _ => none

def introduction (p : Operation × Option OperationResult) : Option (String × Operation) :=
  match p.1.contract? with
  | some _ => (p.2.bind resultId).map fun id ↦ (id, p.1)
  | none => none

def originOf (pairs : List (Operation × Option OperationResult)) (id : String) :
    Option Operation :=
  (pairs.filterMap introduction).reverse.lookup id

def logPairs (commits : List GitCommit) : List (Operation × Option OperationResult) :=
  commits.flatMap GitCommit.pairs

def orderOrigin (commits : List GitCommit) (id : String) : Option Operation :=
  originOf (logPairs commits) id

/-- What a row of a sync says about a fill, once it is joined with the operation
of its order. -/
structure RowFill where
  id : String
  op : Operation
  qty : Decimal
  price : Decimal

def rowFill (commits : List GitCommit) (r : OperationResult) : Option RowFill :=
  if r.status = .filled then
    (resultId r).bind fun id ↦ r.fill?.bind fun (qty, price) ↦
      (orderOrigin commits id).map fun op ↦ ⟨id, op, qty, price⟩
  else none

/-! ## Pending orders -/

def GitCommit.statuses (c : GitCommit) : List (String × OperationStatus) :=
  c.results.flatMap fun r ↦
    ((resultId r).map fun id ↦ (id, r.status)).toList ++
      r.legs.map fun leg ↦ (leg.orderId, .submitted)

def orderStatus (commits : List GitCommit) (id : String) : Option OperationStatus :=
  (commits.reverse.flatMap GitCommit.statuses).lookup id

structure PendingOrder where
  orderId : String
  symbol : String
  localSymbol : Option String := none
  aliceId : Option String := none
deriving DecidableEq

def resultIds (r : OperationResult) : List String :=
  (resultId r).toList ++ r.legs.map PlaceOrderLeg.orderId

variable {r : OperationResult}

theorem resultId_of_nil (h : resultIds r = []) : resultId r = none := by
  cases hr : resultId r with
  | none => rfl
  | some id => simp [resultIds, hr] at h

theorem mem_resultIds {id : String} (h : resultId r = some id) : id ∈ resultIds r :=
  List.mem_append_left _ (Option.mem_toList.mpr h)

def candidatesUnder (op : Option Operation) (r : OperationResult) : List PendingOrder :=
  let contract := op.bind Operation.contract?
  (resultIds r).map fun id ↦
    { orderId := id
      symbol := (op.map Operation.symbol).getD "unknown"
      localSymbol := contract.bind fun c ↦ truthy (some c.localSymbol)
      aliceId := contract.bind fun c ↦ truthy c.aliceId }

def candidatesOf (operations : List Operation) (results : List OperationResult) :
    List PendingOrder :=
  results.zipIdx.flatMap fun (r, j) ↦ candidatesUnder ((operations[j]?).or operations[0]?) r

def GitCommit.candidates (c : GitCommit) : List PendingOrder :=
  candidatesOf c.operations c.results

def addPending (commits : List GitCommit) (pending : List PendingOrder) (o : PendingOrder) :
    List PendingOrder :=
  if o.orderId ∈ pending.map PendingOrder.orderId ∨
      orderStatus commits o.orderId ≠ some .submitted then pending
  else pending ++ [o]

def getPendingOrderIds (commits : List GitCommit) : List PendingOrder :=
  (commits.flatMap GitCommit.candidates).foldl (addPending commits) []

def getKnownOrderIds (commits : List GitCommit) : List String :=
  commits.flatMap fun c ↦ c.results.flatMap resultIds

/-! ## How the readings grow with the log -/

variable {commits : List GitCommit} {c : GitCommit} {id : String}

variable {op : Operation} {rs : List OperationResult} {ops : List Operation}

theorem mem_of_mem_paired {r? : Option OperationResult} (h : (op, r?) ∈ paired ops rs) :
    op ∈ ops ∧ ∀ r, r? = some r → r ∈ rs := by
  induction ops generalizing rs with
  | nil => cases h
  | cons op' ops ih =>
    cases rs with
    | nil =>
      rcases List.mem_cons.mp h with he | h
      · cases he
        exact ⟨List.mem_cons_self, by simp⟩
      · exact ⟨List.mem_cons_of_mem _ (ih h).1, (ih h).2⟩
    | cons r' rs =>
      rcases List.mem_cons.mp h with he | h
      · cases he
        exact ⟨List.mem_cons_self, by rintro r ⟨⟩; exact List.mem_cons_self⟩
      · exact ⟨List.mem_cons_of_mem _ (ih h).1, fun r hr ↦ List.mem_cons_of_mem _ ((ih h).2 r hr)⟩

theorem mem_paired_append (new : List OperationResult) (h : (op, some r) ∈ paired ops rs) :
    (op, some r) ∈ paired ops (rs ++ new) := by
  induction ops generalizing rs with
  | nil => cases h
  | cons op' ops ih =>
    cases rs with
    | nil =>
      have hno := (mem_of_mem_paired h).2 r rfl
      cases hno
    | cons r' rs =>
      rcases List.mem_cons.mp h with he | h
      · rw [he]
        exact List.mem_cons_self
      · exact List.mem_cons_of_mem _ (ih h)

theorem mem_paired_next (r : OperationResult) (h : ops[rs.length]? = some op) :
    (op, some r) ∈ paired ops (rs ++ [r]) := by
  induction rs generalizing ops with
  | nil =>
    cases ops with
    | nil => cases h
    | cons op' ops =>
      cases h
      exact List.mem_cons_self
  | cons r' rs ih =>
    cases ops with
    | nil => cases h
    | cons op' ops => exact List.mem_cons_of_mem _ (ih h)

theorem of_mem_paired_concat
    {op op' : Operation} {r r' : OperationResult} (hop : ops[rs.length]? = some op)
    (h : (op', some r') ∈ paired ops (rs ++ [r])) :
    (op', some r') ∈ paired ops rs ∨ op' = op ∧ r' = r := by
  induction rs generalizing ops with
  | nil =>
    cases ops with
    | nil => cases hop
    | cons op₀ ops =>
      cases hop
      rcases List.mem_cons.mp h with he | h
      · cases he
        exact .inr ⟨rfl, rfl⟩
      · cases (mem_of_mem_paired h).2 r' rfl
  | cons r₀ rs ih =>
    cases ops with
    | nil => cases hop
    | cons op₀ ops =>
      rcases List.mem_cons.mp h with he | h
      · rw [he]
        exact .inl List.mem_cons_self
      · exact (ih hop h).imp_left (List.mem_cons_of_mem _)

theorem introduction_eq_some {p : Operation × Option OperationResult} :
    introduction p = some (id, op) ↔
      p.1 = op ∧ op.contract?.isSome = true ∧ p.2.bind resultId = some id := by
  simp only [introduction]
  constructor
  · intro h
    split at h
    · rename_i hc
      obtain ⟨_, hid, he⟩ := Option.map_eq_some_iff.mp h
      cases he
      exact ⟨rfl, by rw [hc]; rfl, hid⟩
    · cases h
  · rintro ⟨rfl, hc, hid⟩
    obtain ⟨contract, hc⟩ := Option.isSome_iff_exists.mp hc
    rw [hc, hid]
    rfl

variable {pairs pairs' : List (Operation × Option OperationResult)}

theorem mem_of_originOf (h : originOf pairs id = some op) :
    ∃ p ∈ pairs, introduction p = some (id, op) := by
  obtain ⟨l₁, l₂, he, _⟩ := List.lookup_eq_some_iff.mp h
  rw [← List.mem_filterMap, ← List.mem_reverse, he]
  exact List.mem_append_right _ List.mem_cons_self

theorem originOf_isSome {p : Operation × Option OperationResult} (hp : p ∈ pairs)
    (h : introduction p = some (id, op)) : ∃ op', originOf pairs id = some op' := by
  rw [← Option.isSome_iff_exists, originOf, List.lookup_isSome_iff]
  refine ⟨(id, op), ?_, beq_self_eq_true id⟩
  exact List.mem_reverse.mpr (List.mem_filterMap.mpr ⟨p, hp, h⟩)

theorem contract_of_originOf (h : originOf pairs id = some op) :
    ∃ contract, op.contract? = some contract := by
  obtain ⟨_, _, hp⟩ := mem_of_originOf h
  exact Option.isSome_iff_exists.mp (introduction_eq_some.mp hp).2.1

theorem originOf_append :
    originOf (pairs ++ pairs') id = (originOf pairs' id).or (originOf pairs id) := by
  rw [originOf, List.filterMap_append, List.reverse_append, List.lookup_append]
  rfl

theorem logPairs_append : logPairs (commits ++ [c]) = logPairs commits ++ c.pairs := by
  simp [logPairs]

theorem rowFill_eq_some {f : RowFill} :
    rowFill commits r = some f ↔ r.status = .filled ∧ resultId r = some f.id ∧
      r.fill? = some (f.qty, f.price) ∧ orderOrigin commits f.id = some f.op := by
  obtain ⟨id, op, qty, price⟩ := f
  simp only [rowFill]
  split
  · rename_i hs
    simp only [Option.bind_eq_some_iff, Option.map_eq_some_iff, RowFill.mk.injEq, Prod.exists]
    constructor
    · rintro ⟨_, hid, _, _, hfill, _, ho, rfl, rfl, rfl, rfl⟩
      exact ⟨hs, hid, hfill, ho⟩
    · rintro ⟨_, hid, hfill, ho⟩
      exact ⟨id, hid, qty, price, hfill, op, ho, rfl, rfl, rfl, rfl⟩
  · rename_i hs
    simp [hs]

theorem rowFill_of_fill (commits : List GitCommit) (h : r.fill? = none) :
    rowFill commits r = none := by
  cases hr : rowFill commits r with
  | none => rfl
  | some f =>
    rw [(rowFill_eq_some.mp hr).2.2.1] at h
    cases h

/-! ## What is pending -/

/-- The order ids a log knows are those of its results and their legs. -/
def InLog (commits : List GitCommit) (id : String) : Prop :=
  ∃ c ∈ commits, ∃ r ∈ c.results, id ∈ resultIds r

theorem inLog_of_origin (h : orderOrigin commits id = some op) :
    InLog commits id := by
  obtain ⟨⟨op', r?⟩, hmem, hp⟩ := mem_of_originOf h
  obtain ⟨_, _, hid⟩ := introduction_eq_some.mp hp
  obtain ⟨r, rfl, hrid⟩ := Option.bind_eq_some_iff.mp hid
  obtain ⟨c, hc, hpair⟩ := List.mem_flatMap.mp hmem
  exact ⟨c, hc, r, (mem_of_mem_paired hpair).2 r rfl, mem_resultIds hrid⟩

theorem orderStatus_cases {st : OperationStatus} (h : orderStatus commits id = some st) :
    ∃ c ∈ commits, ∃ r ∈ c.results, (resultId r = some id ∧ r.status = st) ∨ st = .submitted := by
  obtain ⟨l₁, l₂, he, _⟩ := List.lookup_eq_some_iff.mp h
  have hmem : (id, st) ∈ commits.reverse.flatMap GitCommit.statuses := by
    rw [he]
    exact List.mem_append_right _ List.mem_cons_self
  obtain ⟨c, hc, hmem⟩ := List.mem_flatMap.mp hmem
  obtain ⟨r, hr, hmem⟩ := List.mem_flatMap.mp hmem
  refine ⟨c, List.mem_reverse.mp hc, r, hr, ?_⟩
  rcases List.mem_append.mp hmem with hmem | hmem
  · left
    obtain ⟨_, hid, he⟩ := Option.map_eq_some_iff.mp (Option.mem_toList.mp hmem)
    cases he
    exact ⟨hid, rfl⟩
  right
  obtain ⟨leg, _, he⟩ := List.mem_map.mp hmem
  cases he
  rfl

theorem orderStatus_isSome (h : InLog commits id) : (orderStatus commits id).isSome = true := by
  obtain ⟨c, hc, r, hr, hid⟩ := h
  rw [orderStatus, List.lookup_isSome_iff]
  rcases List.mem_append.mp hid with hid | hid
  · refine ⟨(id, r.status), ?_, beq_self_eq_true id⟩
    refine List.mem_flatMap.mpr ⟨c, List.mem_reverse.mpr hc, List.mem_flatMap.mpr ⟨r, hr, ?_⟩⟩
    apply List.mem_append_left
    rw [Option.mem_toList]
    exact Option.map_eq_some_iff.mpr ⟨id, Option.mem_toList.mp hid, rfl⟩
  · obtain ⟨leg, hleg, rfl⟩ := List.mem_map.mp hid
    refine ⟨(leg.orderId, .submitted), ?_, beq_self_eq_true _⟩
    refine List.mem_flatMap.mpr ⟨c, List.mem_reverse.mpr hc, List.mem_flatMap.mpr ⟨r, hr, ?_⟩⟩
    exact List.mem_append_right _ (List.mem_map_of_mem hleg)

theorem mem_candidatesOf_iff {operations : List Operation} {results : List OperationResult} :
    (∃ o ∈ candidatesOf operations results, o.orderId = id) ↔ ∃ r ∈ results, id ∈ resultIds r := by
  constructor
  · rintro ⟨o, ho, rfl⟩
    obtain ⟨⟨r, j⟩, hr, ho⟩ := List.mem_flatMap.mp ho
    obtain ⟨id, hid, rfl⟩ := List.mem_map.mp ho
    exact ⟨r, (List.mem_zipIdx' hr).2 ▸ List.getElem_mem _, hid⟩
  rintro ⟨r, hr, hid⟩
  obtain ⟨j, hj, rfl⟩ := List.getElem_of_mem hr
  refine ⟨_, List.mem_flatMap.mpr ⟨(results[j], j), ?_, List.mem_map.mpr ⟨id, hid, rfl⟩⟩, rfl⟩
  rw [List.mem_zipIdx_iff_getElem?]
  exact List.getElem?_eq_getElem hj

theorem mem_candidates_iff :
    (∃ o ∈ c.candidates, o.orderId = id) ↔ ∃ r ∈ c.results, id ∈ resultIds r :=
  mem_candidatesOf_iff

theorem candidatesOf_concat {operations : List Operation} {results : List OperationResult}
    (r : OperationResult) (h : operations[results.length]? = some op) :
    candidatesOf operations (results ++ [r]) =
      candidatesOf operations results ++ candidatesUnder (some op) r := by
  simp [candidatesOf, List.zipIdx_append, h]

theorem mem_foldl_addPending (candidates pending : List PendingOrder) :
    (∀ p ∈ pending, p ∈ candidates.foldl (addPending commits) pending) ∧
      ∀ o ∈ candidates, orderStatus commits o.orderId = some .submitted →
        ∃ p ∈ candidates.foldl (addPending commits) pending, p.orderId = o.orderId := by
  induction candidates generalizing pending with
  | nil => exact ⟨fun _ hp ↦ hp, by simp⟩
  | cons o candidates ih =>
    obtain ⟨hkeep, hadd⟩ := ih (addPending commits pending o)
    have hsubset : ∀ p ∈ pending, p ∈ addPending commits pending o := by
      intro p hp
      simp only [addPending]
      split
      · exact hp
      · exact List.mem_append_left _ hp
    refine ⟨fun p hp ↦ hkeep p (hsubset p hp), ?_⟩
    intro o' ho' hs
    rcases List.mem_cons.mp ho' with rfl | ho'
    · have hin : ∃ p ∈ addPending commits pending o', p.orderId = o'.orderId := by
        by_cases hseen : o'.orderId ∈ pending.map PendingOrder.orderId
        · obtain ⟨p, hp, he⟩ := List.mem_map.mp hseen
          exact ⟨p, hsubset p hp, he⟩
        · refine ⟨o', ?_, rfl⟩
          simp [addPending, hseen, hs]
      obtain ⟨p, hp, he⟩ := hin
      exact ⟨p, hkeep p hp, he⟩
    · exact hadd o' ho' hs

theorem of_mem_foldl_addPending {candidates pending : List PendingOrder} {p : PendingOrder}
    (h : p ∈ candidates.foldl (addPending commits) pending) :
    p ∈ pending ∨ p.orderId ∉ pending.map PendingOrder.orderId ∧
      orderStatus commits p.orderId = some .submitted ∧
        candidates.find? (fun o ↦ o.orderId = p.orderId) = some p := by
  induction candidates generalizing pending with
  | nil => exact .inl h
  | cons o candidates ih =>
    rw [List.foldl_cons] at h
    by_cases hno : o.orderId ∈ pending.map PendingOrder.orderId ∨
        orderStatus commits o.orderId ≠ some .submitted
    · rw [addPending, if_pos hno] at h
      refine (ih h).imp_right ?_
      rintro ⟨hseen, hs, hfind⟩
      have hne : o.orderId ≠ p.orderId := by
        intro he
        rw [he] at hno
        exact hno.elim hseen fun h ↦ h hs
      exact ⟨hseen, hs, by rw [List.find?_cons_of_neg (by simpa using hne), hfind]⟩
    · rw [addPending, if_neg hno] at h
      rw [not_or, not_not] at hno
      rcases ih h with h | ⟨hseen, hs, hfind⟩
      · rcases List.mem_append.mp h with h | h
        · exact .inl h
        rw [List.mem_singleton] at h
        subst h
        exact .inr ⟨hno.1, hno.2, List.find?_cons_of_pos (by simp)⟩
      · rw [List.map_append, List.mem_append, not_or] at hseen
        have hne : o.orderId ≠ p.orderId := fun he ↦ hseen.2 (by simp [he])
        exact .inr ⟨hseen.1, hs, by rw [List.find?_cons_of_neg (by simpa using hne), hfind]⟩

theorem find?_of_pending {p : PendingOrder} (h : p ∈ getPendingOrderIds commits) :
    (commits.flatMap GitCommit.candidates).find? (fun o ↦ o.orderId = p.orderId) = some p := by
  rcases of_mem_foldl_addPending h with h | ⟨_, _, hfind⟩
  · cases h
  · exact hfind

theorem pending_of_submitted (h : InLog commits id)
    (hs : orderStatus commits id = some .submitted) :
    ∃ p ∈ getPendingOrderIds commits, p.orderId = id := by
  obtain ⟨c, hc, hr⟩ := h
  obtain ⟨o, ho, rfl⟩ := mem_candidates_iff.mpr hr
  exact (mem_foldl_addPending _ []).2 o (List.mem_flatMap.mpr ⟨c, hc, ho⟩) hs

theorem inLog_of_pending {p : PendingOrder} (h : p ∈ getPendingOrderIds commits) :
    InLog commits p.orderId := by
  obtain ⟨c, hc, ho⟩ := List.mem_flatMap.mp (List.mem_of_find?_eq_some (find?_of_pending h))
  exact ⟨c, hc, mem_candidates_iff.mp ⟨p, ho, rfl⟩⟩

end OpenAlice.Trading
