import OpenAlice.Data.Histories
import OpenAlice.Data.Keyed
import OpenAlice.Trading.Ledger.OrderRows
import OpenAlice.Trading.Ledger.Pending

/-!
# The order history and the pending scanner

Both read the status of an order off the log.  What a commit says of it is read differently:
`getPendingOrderIds` takes the first status among the results, whatever operation they answer, and
`projectOrderHistory` takes the last of what introduces the order, of what cancels it, and of the
rows of a sync.  Each status is the last that a commit says, so the two agree along a log exactly
when each commit says the same to both, as to whether the order is open.
-/

namespace OpenAlice.Trading

open OpenAlice.Data OpenAlice.Run

variable {commits : List GitCommit} {c : GitCommit} {id : String}

/-! ## What a commit says of an order -/

def Introduces (id : String) (p : Operation × Option OperationResult) : Prop :=
  (introduction p).map Prod.fst = some id

instance (id : String) : DecidablePred (Introduces id) :=
  fun p ↦ inferInstanceAs (Decidable ((introduction p).map Prod.fst = some id))

def Introduced (commits : List GitCommit) (id : String) : Prop :=
  ∃ p ∈ logPairs commits, Introduces id p

instance (commits : List GitCommit) : DecidablePred (Introduced commits) :=
  fun id ↦ inferInstanceAs (Decidable (∃ p ∈ logPairs commits, Introduces id p))

def operationTells (id : String) (p : Operation × Option OperationResult) :
    Option OperationStatus :=
  if Introduces id p then p.2.map OperationResult.status
  else if p.1 = .cancelOrder id ∧ p.2.any OperationResult.success then some .cancelled
  else none

def rowTells (id : String) (r : OperationResult) : Option OperationStatus :=
  if resultId r = some id ∧ r.success then some r.status else none

def GitCommit.told (id : String) (c : GitCommit) : Option OperationStatus :=
  (if c.isSync then latest (rowTells id) c.results else none).or
    (latest (operationTells id) c.pairs)

def GitCommit.heard (id : String) (c : GitCommit) : Option OperationStatus :=
  (c.statusesOf id).head?

/-! ## The rows of the history -/

def OrderRows.status? (rows : OrderRows) (id : String) : Option OperationStatus :=
  (rows.byOrderId.lookup id).map OrderHistoryEntry.status

structure OrderRows.Kept (rows : OrderRows) : Prop where
  nodup : (rows.byOrderId.map Prod.fst).Nodup
  named : ∀ q ∈ rows.byOrderId, q.2.orderId = some q.1
  anonymous : ∀ entry ∈ rows.anonymous, entry.orderId = none

section Rows

variable {rows : OrderRows} {entry : OrderHistoryEntry} {f : OrderHistoryEntry → OrderHistoryEntry}
  {id' : String}

theorem status?_resolve_self :
    (rows.resolve id f).status? id = ((rows.byOrderId.lookup id).map f).map fun e ↦ e.status :=
  congrArg (Option.map _) (lookup_changeKey_self rows.byOrderId)

theorem status?_resolve_of_ne (h : id ≠ id') : (rows.resolve id' f).status? id = rows.status? id :=
  congrArg (Option.map _) (lookup_changeKey_of_ne h rows.byOrderId)

theorem status?_resolve {status : OperationStatus} (hf : ∀ e, (f e).status = status) :
    (rows.resolve id f).status? id = (rows.status? id).map fun _ ↦ status := by
  rw [status?_resolve_self, OrderRows.status?, Option.map_map, Option.map_map]
  exact congrArg (fun g ↦ Option.map g _) (funext hf)

theorem status?_set_self : (rows.set id entry).status? id = some entry.status := by
  rw [OrderRows.set]
  split_ifs with hmem
  · obtain ⟨e, he⟩ : ∃ e, rows.byOrderId.lookup id = some e := by
      rw [← Option.isSome_iff_exists, List.lookup_isSome_iff]
      obtain ⟨q, hq, rfl⟩ := List.mem_map.mp hmem
      exact ⟨q, hq, beq_self_eq_true _⟩
    have hset : (changeKey rows.byOrderId id fun _ ↦ entry).lookup id = some entry := by
      rw [lookup_changeKey_self, he]
      rfl
    exact congrArg (Option.map _) hset
  · rw [OrderRows.status?, List.lookup_append, lookup_of_not_mem hmem, List.lookup_cons_self]
    rfl

theorem status?_set_of_ne (h : id ≠ id') : (rows.set id' entry).status? id = rows.status? id := by
  rw [OrderRows.set]
  split_ifs with hmem
  · have hset : (changeKey rows.byOrderId id' fun _ ↦ entry).lookup id = rows.byOrderId.lookup id :=
      lookup_changeKey_of_ne h rows.byOrderId
    exact congrArg (Option.map _) hset
  rw [OrderRows.status?, List.lookup_append, List.lookup_cons, beq_false_of_ne h, List.lookup_nil,
    Option.or_none]
  rfl

/-! ## One row for an order -/

theorem OrderRows.Kept.resolve (h : rows.Kept) (hf : ∀ e, (f e).orderId = e.orderId) :
    (rows.resolve id f).Kept where
  nodup := by
    have hkeys : (rows.resolve id f).byOrderId.map Prod.fst = rows.byOrderId.map Prod.fst :=
      keys_changeKey rows.byOrderId
    rw [hkeys]
    exact h.nodup
  named := by
    intro q hq
    obtain ⟨q, hmem, rfl⟩ := List.mem_map.mp hq
    split_ifs with hid
    · rw [hf, h.named q hmem, hid]
    · exact h.named q hmem
  anonymous := h.anonymous

theorem OrderRows.Kept.set (h : rows.Kept) (hentry : entry.orderId = some id) :
    (rows.set id entry).Kept := by
  rw [OrderRows.set]
  split_ifs with hmem
  · exact
      { nodup := by
          have hkeys : (changeKey rows.byOrderId id fun _ ↦ entry).map Prod.fst =
              rows.byOrderId.map Prod.fst :=
            keys_changeKey rows.byOrderId
          rw [changeKey] at hkeys
          rw [hkeys]
          exact h.nodup
        named := by
          intro q hq
          obtain ⟨old, hold, rfl⟩ := List.mem_map.mp hq
          split_ifs with hid
          · exact hentry
          · exact h.named old hold
        anonymous := h.anonymous }
  · exact
      { nodup := by
          rw [List.map_append, List.nodup_append]
          refine ⟨h.nodup, List.nodup_singleton id, ?_⟩
          rintro seen hseen new hnew rfl
          obtain rfl : seen = id := List.mem_singleton.mp hnew
          exact hmem hseen
        named := by
          intro q hq
          rcases List.mem_append.mp hq with hq | hq
          · exact h.named q hq
          · rw [List.mem_singleton.mp hq]
            exact hentry
        anonymous := h.anonymous }

end Rows

section Steps

variable {rows : OrderRows} {p : Operation × Option OperationResult} {r : OperationResult}

theorem Introduces.elim (h : Introduces id p) :
    ∃ contract r, p.1.contract? = some contract ∧ p.2 = some r ∧ resultId r = some id := by
  obtain ⟨⟨_, op⟩, hp, rfl⟩ := Option.map_eq_some_iff.mp h
  obtain ⟨rfl, hcontract, hid⟩ := introduction_eq_some.mp hp
  obtain ⟨contract, hcontract⟩ := Option.isSome_iff_exists.mp hcontract
  obtain ⟨r, hr, hid⟩ := Option.bind_eq_some_iff.mp hid
  exact ⟨contract, r, hcontract, hr, hid⟩

theorem status?_rowsOperation_of_introduces (h : Introduces id p) :
    (rowsOperation c rows p).status? id = operationTells id p := by
  rw [operationTells, if_pos h]
  obtain ⟨op, result⟩ := p
  obtain ⟨contract, r, hcontract, hr, hid⟩ := h.elim
  obtain rfl : result = some r := hr
  have hcontract : op.contract? = some contract := hcontract
  simp only [rowsOperation, hcontract, Option.bind_some, hid]
  exact status?_set_self

theorem map_untold (status : Option OperationStatus) :
    (status.map fun status ↦ (none : Option OperationStatus).getD status) = status :=
  Option.map_id'

theorem rowsOperation_cancelOrder (result : Option OperationResult) :
    rowsOperation c rows (.cancelOrder id, result) =
      if result.any OperationResult.success then
        rows.resolve id fun e ↦ { e with status := .cancelled, resolvedAt := some c.timestamp }
      else rows :=
  rfl

theorem status?_rowsOperation_of_not (h : ¬ Introduces id p) : (rowsOperation c rows p).status? id =
      (rows.status? id).map fun status ↦ (operationTells id p).getD status := by
  rw [operationTells, if_neg h]
  obtain ⟨op, result⟩ := p
  cases hcontract : op.contract? with
  | some contract =>
    have hcancel : ¬ (op = .cancelOrder id ∧ result.any OperationResult.success = true) := by
      rintro ⟨rfl, -⟩
      cases hcontract
    rw [if_neg hcancel, map_untold]
    simp only [rowsOperation, hcontract]
    cases hid : result.bind resultId with
    | none => rfl
    | some id' =>
      have hne : id ≠ id' := by
        rintro rfl
        exact h (congrArg _ (introduction_eq_some.mpr ⟨rfl, by rw [hcontract]; rfl, hid⟩))
      exact status?_set_of_ne hne
  | none =>
    cases op with
    | cancelOrder id' =>
      rw [rowsOperation_cancelOrder]
      by_cases hid : id' = id
      · subst hid
        by_cases hsuccess : result.any OperationResult.success = true
        · rw [if_pos hsuccess, if_pos ⟨rfl, hsuccess⟩]
          exact status?_resolve fun _ ↦ rfl
        · rw [if_neg hsuccess, if_neg fun hboth ↦ hsuccess hboth.2, map_untold]
      · have hne : ¬ (Operation.cancelOrder id' = .cancelOrder id ∧
            result.any OperationResult.success = true) :=
          fun hboth ↦ hid (Operation.cancelOrder.inj hboth.1)
        rw [if_neg hne, map_untold]
        split_ifs
        · exact status?_resolve_of_ne (Ne.symm hid)
        · rfl
    | placeOrder | closePosition | observeExternalOrder => cases hcontract
    | _ =>
      rw [if_neg (by rintro ⟨⟨⟩, -⟩), map_untold]
      rfl

theorem status?_rowsSync : (rowsSync c rows r).status? id =
      (rows.status? id).map fun status ↦ (rowTells id r).getD status := by
  rw [rowTells]
  cases hid : resultId r with
  | none =>
    rw [if_neg (by rintro ⟨⟨⟩, -⟩), map_untold]
    simp only [rowsSync, hid]
  | some id' =>
    simp only [rowsSync, hid]
    by_cases hsuccess : r.success = true
    · rw [if_pos hsuccess]
      by_cases heq : id' = id
      · subst heq
        rw [if_pos ⟨rfl, hsuccess⟩]
        exact status?_resolve fun _ ↦ rfl
      · rw [if_neg fun hboth ↦ heq (Option.some.inj hboth.1), map_untold]
        exact status?_resolve_of_ne (Ne.symm heq)
    · rw [if_neg hsuccess, if_neg fun hboth ↦ hsuccess hboth.2, map_untold]

theorem OrderRows.Kept.operation (h : rows.Kept) : (rowsOperation c rows p).Kept := by
  rw [rowsOperation]
  split
  · rename_i contract hcontract
    cases hid : p.2.bind resultId with
    | none =>
      exact
        { nodup := h.nodup
          named := h.named
          anonymous := by
            intro entry hentry
            rcases List.mem_append.mp hentry with hentry | hentry
            · exact h.anonymous entry hentry
            · rw [List.mem_singleton.mp hentry]
              exact hid }
    | some id => exact h.set hid
  · split
    · split_ifs
      · exact h.resolve fun _ ↦ rfl
      · exact h
    · exact h

theorem OrderRows.Kept.sync (h : rows.Kept) : (rowsSync c rows r).Kept := by
  rw [rowsSync]
  split
  · split_ifs
    · exact h.resolve fun _ ↦ rfl
    · exact h
  · exact h

end Steps

/-! ## The rows of a commit -/

section Commit

variable {rows : OrderRows} {pairs : List (Operation × Option OperationResult)}
  {results : List OperationResult}

theorem OrderRows.Kept.foldl_operation (h : rows.Kept) :
    (pairs.foldl (rowsOperation c) rows).Kept := by
  induction pairs generalizing rows with
  | nil => exact h
  | cons p pairs ih => exact ih h.operation

theorem OrderRows.Kept.foldl_sync (h : rows.Kept) : (results.foldl (rowsSync c) rows).Kept := by
  induction results generalizing rows with
  | nil => exact h
  | cons r results ih => exact ih h.sync

theorem OrderRows.Kept.commit (h : rows.Kept) : (rowsCommit rows c).Kept := by
  rw [rowsCommit]
  split_ifs
  · exact h.foldl_operation.foldl_sync
  · exact h.foldl_operation

theorem kept_orderRows (commits : List GitCommit) : (orderRows commits).Kept := by
  induction commits using List.reverseRecOn with
  | nil => exact ⟨List.nodup_nil, fun _ hq ↦ (by cases hq), fun _ hentry ↦ (by cases hentry)⟩
  | append_singleton commits c ih =>
    rw [orderRows, List.foldl_concat]
    exact ih.commit

theorem operationTells_isSome {p : Operation × Option OperationResult} (h : Introduces id p) :
    (operationTells id p).isSome = true := by
  obtain ⟨_, r, _, hr, _⟩ := h.elim
  rw [operationTells, if_pos h, hr]
  rfl

theorem isSome_operations : ((pairs.foldl (rowsOperation c) rows).status? id).isSome = true ↔
      (rows.status? id).isSome = true ∨ ∃ p ∈ pairs, Introduces id p := by
  induction pairs using List.reverseRecOn with
  | nil => simp
  | append_singleton pairs p ih =>
    rw [List.foldl_concat]
    simp only [List.mem_append, List.mem_singleton, or_and_right, exists_or, exists_eq_left]
    by_cases hp : Introduces id p
    · rw [status?_rowsOperation_of_introduces hp, operationTells_isSome hp]
      simp only [hp, or_true]
    · rw [status?_rowsOperation_of_not hp, Option.isSome_map, ih]
      simp only [hp, or_false]

theorem status?_operations (h : ((pairs.foldl (rowsOperation c) rows).status? id).isSome = true) :
    (pairs.foldl (rowsOperation c) rows).status? id =
      (latest (operationTells id) pairs).or (rows.status? id) := by
  induction pairs using List.reverseRecOn with
  | nil => rfl
  | append_singleton pairs p ih =>
    rw [List.foldl_concat] at h ⊢
    rw [latest_concat, Option.or_assoc]
    by_cases hp : Introduces id p
    · obtain ⟨status, hstatus⟩ := Option.isSome_iff_exists.mp (operationTells_isSome hp)
      rw [status?_rowsOperation_of_introduces hp, hstatus, Option.some_or]
    rw [status?_rowsOperation_of_not hp, Option.isSome_map] at h
    rw [status?_rowsOperation_of_not hp, ← ih h]
    obtain ⟨status, hstatus⟩ := Option.isSome_iff_exists.mp h
    rw [hstatus]
    cases operationTells id p <;> rfl

theorem status?_sync : (results.foldl (rowsSync c) rows).status? id =
      (rows.status? id).map fun status ↦ (latest (rowTells id) results).getD status := by
  induction results using List.reverseRecOn with
  | nil => exact (map_untold _).symm
  | append_singleton results r ih =>
    rw [List.foldl_concat, status?_rowsSync, ih, Option.map_map, latest_concat]
    refine congrArg (fun g ↦ Option.map g _) (funext fun status ↦ ?_)
    cases rowTells id r <;> rfl

theorem isSome_commit : ((rowsCommit rows c).status? id).isSome = true ↔
      (rows.status? id).isSome = true ∨ ∃ p ∈ c.pairs, Introduces id p := by
  rw [rowsCommit]
  split_ifs
  · rw [status?_sync, Option.isSome_map, isSome_operations]
  · exact isSome_operations

theorem status?_commit (h : ((rowsCommit rows c).status? id).isSome = true) :
    (rowsCommit rows c).status? id = (c.told id).or (rows.status? id) := by
  rw [rowsCommit] at h ⊢
  rw [GitCommit.told, Option.or_assoc]
  split_ifs at h ⊢ with hsync
  · rw [status?_sync, Option.isSome_map] at h
    rw [status?_sync, ← status?_operations h]
    obtain ⟨status, hstatus⟩ := Option.isSome_iff_exists.mp h
    rw [hstatus]
    cases latest (rowTells id) c.results <;> rfl
  · rw [Option.none_or]
    exact status?_operations h

theorem told_isSome {p : Operation × Option OperationResult} (hp : p ∈ c.pairs)
    (h : Introduces id p) : (c.told id).isSome = true := by
  have hlatest : (latest (operationTells id) c.pairs).isSome = true :=
    latest_isSome_iff.mpr ⟨p, hp, operationTells_isSome h⟩
  rw [GitCommit.told, Option.isSome_or, hlatest, Bool.or_true]

end Commit

/-! ## What the two read off a log -/

theorem introduced_concat :
    Introduced (commits ++ [c]) id ↔ Introduced commits id ∨ ∃ p ∈ c.pairs, Introduces id p := by
  rw [Introduced, logPairs_append]
  simp only [List.mem_append, or_and_right, exists_or]
  rfl

theorem status?_isSome_iff :
    ((orderRows commits).status? id).isSome = true ↔ Introduced commits id := by
  induction commits using List.reverseRecOn with
  | nil =>
    constructor
    · intro h
      cases h
    · rintro ⟨_, h, _⟩
      cases h
  | append_singleton commits c ih =>
    rw [orderRows, List.foldl_concat, isSome_commit, introduced_concat]
    exact or_congr_left ih

/-- **The row of an order shows what its history was told last.** -/
theorem status?_orderRows (h : Introduced commits id) :
    (orderRows commits).status? id = latest (GitCommit.told id) commits := by
  induction commits using List.reverseRecOn with
  | nil =>
    obtain ⟨_, h, _⟩ := h
    cases h
  | append_singleton commits c ih =>
    have hsome := status?_isSome_iff.mpr h
    rw [orderRows, List.foldl_concat] at hsome ⊢
    rw [status?_commit hsome, latest_concat]
    rcases introduced_concat.mp h with hold | ⟨p, hp, hintro⟩
    · rw [← ih hold]
      rfl
    · obtain ⟨status, hstatus⟩ := Option.isSome_iff_exists.mp (told_isSome hp hintro)
      rw [hstatus, Option.some_or, Option.some_or]

theorem orderStatus_eq_latest (commits : List GitCommit) (id : String) :
    orderStatus commits id = latest (GitCommit.heard id) commits := by
  rw [orderStatus_eq_head?]
  induction commits using List.reverseRecOn with
  | nil => rfl
  | append_singleton commits c ih =>
    rw [newestStatuses_concat, latest_concat, ← ih, GitCommit.heard]
    split_ifs with h
    · rw [h]
      rfl
    · rw [List.head?_eq_some_head h, Option.some_or]

/-! ## One row -/

theorem filter_rows {entries : List (String × OrderHistoryEntry)} {entry : OrderHistoryEntry}
    (hnodup : (entries.map Prod.fst).Nodup) (hnamed : ∀ q ∈ entries, q.2.orderId = some q.1)
    (h : entries.lookup id = some entry) :
    (entries.map Prod.snd).filter (fun e ↦ e.orderId = some id) = [entry] := by
  induction entries with
  | nil => cases h
  | cons q entries ih =>
    obtain ⟨key, value⟩ := q
    have hvalue : value.orderId = some key := hnamed (key, value) List.mem_cons_self
    have hrest : ∀ q ∈ entries, q.2.orderId = some q.1 :=
      fun q hq ↦ hnamed q (List.mem_cons_of_mem _ hq)
    obtain ⟨hkey, hnodup⟩ := List.nodup_cons.mp hnodup
    rw [List.lookup_cons] at h
    rw [List.map_cons]
    by_cases hid : id = key
    · subst hid
      rw [beq_self_eq_true] at h
      obtain rfl : value = entry := Option.some.inj h
      rw [List.filter_cons, if_pos (decide_eq_true hvalue)]
      have hnone : (entries.map Prod.snd).filter (fun e ↦ e.orderId = some id) = [] := by
        rw [List.filter_eq_nil_iff]
        intro e he heq
        obtain ⟨q, hq, rfl⟩ := List.mem_map.mp he
        have hqid : q.1 = id := Option.some.inj ((hrest q hq).symm.trans (of_decide_eq_true heq))
        have hmem : q.1 ∈ entries.map Prod.fst := List.mem_map_of_mem hq
        exact hkey (hqid ▸ hmem)
      rw [hnone]
    · rw [beq_false_of_ne hid] at h
      have hne : ¬ value.orderId = some id := by
        rw [hvalue]
        exact fun heq ↦ hid (Option.some.inj heq).symm
      rw [List.filter_cons, if_neg (fun heq ↦ hne (of_decide_eq_true heq))]
      exact ih hnodup hrest h

/-- **An order that was introduced has one row**, with the status that its history was told last. -/
theorem one_row (h : Introduced commits id) :
    ∃ row, (projectOrderHistory commits none).filter (fun e ↦ e.orderId = some id) = [row] ∧
      some row.status = latest (GitCommit.told id) commits := by
  obtain ⟨status, hstatus⟩ := Option.isSome_iff_exists.mp (status?_isSome_iff.mpr h)
  obtain ⟨row, hrow, rfl⟩ := Option.map_eq_some_iff.mp hstatus
  refine ⟨row, ?_, by rw [← status?_orderRows h, hstatus]⟩
  obtain ⟨hnodup, hnamed, hanonymous⟩ := kept_orderRows commits
  have hnone : (orderRows commits).anonymous.filter (fun e ↦ e.orderId = some id) = [] := by
    rw [List.filter_eq_nil_iff]
    intro e he heq
    have hid := of_decide_eq_true heq
    rw [hanonymous e he] at hid
    cases hid
  have hall : ((orderRows commits).byOrderId.map Prod.snd ++ (orderRows commits).anonymous).filter
      (fun e ↦ e.orderId = some id) = [row] := by
    rw [List.filter_append, hnone, List.append_nil, filter_rows hnodup hnamed hrow]
  refine List.perm_singleton.mp (.trans (.filter _ ?_) (.of_eq hall))
  exact (List.mergeSort_perm _ _).trans (List.reverse_perm _)

/-! ## When they agree -/

/-- **Every order that was introduced has one row, which is submitted if the order is pending.** -/
def HistoryAgrees (commits : List GitCommit) : Prop :=
  ∀ id, Introduced commits id →
    ∃ row, (projectOrderHistory commits none).filter (fun e ↦ e.orderId = some id) = [row] ∧
      (row.status = .submitted ↔ id ∈ (getPendingOrderIds commits).map PendingOrder.orderId)

def WasOpen (commits : List GitCommit) (id : String) : Prop :=
  latest (GitCommit.heard id) commits = some .submitted

instance (commits : List GitCommit) : DecidablePred (WasOpen commits) :=
  fun id ↦ inferInstanceAs (Decidable (latest (GitCommit.heard id) commits = some .submitted))

def OpenAfter (said : Option OperationStatus) (wasOpen : Prop) : Prop :=
  said.elim wasOpen (· = .submitted)

/-- The commit says the same to the history as to the scanner, of every order introduced by then. -/
def ToldAlike (before : List GitCommit) (c : GitCommit) : Prop :=
  ∀ id, Introduced (before ++ [c]) id →
    (OpenAfter (c.told id) (WasOpen before id) ↔ OpenAfter (c.heard id) (WasOpen before id))

theorem or_eq_submitted_iff (said before : Option OperationStatus) :
    said.or before = some .submitted ↔ OpenAfter said (before = some .submitted) := by
  cases said with
  | none => rfl
  | some status => exact Option.some_inj

theorem historyAgrees_iff : HistoryAgrees commits ↔ ∀ id, Introduced commits id →
      (latest (GitCommit.told id) commits = some .submitted ↔ WasOpen commits id) := by
  refine forall₂_congr fun id h ↦ ?_
  obtain ⟨row, hrow, hstatus⟩ := one_row h
  rw [mem_pending_iff, orderStatus_eq_latest, ← hstatus, Option.some_inj]
  constructor
  · rintro ⟨row', hrow', hiff⟩
    obtain rfl : row = row' := List.head_eq_of_cons_eq (hrow.symm.trans hrow')
    exact hiff
  · exact fun hiff ↦ ⟨row, hrow, hiff⟩

theorem historyAgrees_concat (h : HistoryAgrees commits) :
    HistoryAgrees (commits ++ [c]) ↔ ToldAlike commits c := by
  rw [historyAgrees_iff] at h ⊢
  refine forall₂_congr fun id hintro ↦ ?_
  rw [WasOpen, latest_concat, latest_concat, or_eq_submitted_iff, or_eq_submitted_iff]
  rcases introduced_concat.mp hintro with hold | ⟨p, hp, hnew⟩
  · have hsame : latest (GitCommit.told id) commits = some .submitted ↔ WasOpen commits id :=
      h id hold
    rw [hsame, WasOpen]
  obtain ⟨status, hstatus⟩ := Option.isSome_iff_exists.mp (told_isSome hp hnew)
  rw [hstatus]
  rfl

/-- **The history and the scanner agree all along a log** exactly when every commit of it says the
same to both. -/
theorem history_agrees_iff (commits : List GitCommit) :
    (∀ log, log <+: commits → HistoryAgrees log) ↔ Along ToldAlike commits := by
  induction commits using List.reverseRecOn with
  | nil =>
    constructor
    · exact fun _ ↦ along_nil
    rintro _ log hlog id ⟨p, hp, _⟩
    rw [List.prefix_nil.mp hlog] at hp
    cases hp
  | append_singleton commits c ih =>
    rw [along_concat, ← ih]
    constructor
    · intro h
      have hold : ∀ log, log <+: commits → HistoryAgrees log :=
        fun log hlog ↦ h log (hlog.trans (List.prefix_append commits [c]))
      exact ⟨hold, (historyAgrees_concat (hold commits List.prefix_rfl)).mp (h _ List.prefix_rfl)⟩
    rintro ⟨hold, halike⟩ log hlog
    rcases List.prefix_concat_iff.mp hlog with rfl | hlog
    · exact (historyAgrees_concat (hold commits List.prefix_rfl)).mpr halike
    · exact hold log hlog

/-! ## Where a commit may part them -/

section Alone

variable {op : Operation} {r : OperationResult}

end Alone

/-! ## An order that is changed and cancelled at once -/

namespace Git

/-- The row of the cancelled order is cancelled, and the order is still pending. -/
theorem cancelled_is_pending : ¬ ∀ (pf : Platform) (W : GitWorld),
    Reach (gitProg pf).step anyStep (GitWorld.initial {}) W →
      HistoryAgrees W.shared.git.commits := by
  intro hall
  have hrun : Reach (gitProg constPlatform).step anyStep (GitWorld.initial {}) _ :=
    .of_exec changedAndCancelled rfl
  have hagrees := historyAgrees_iff.mp (hall constPlatform _ hrun) "1"
  revert hagrees
  decide +kernel

end Git

end OpenAlice.Trading
