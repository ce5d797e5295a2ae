import Mathlib.Data.List.Nodup
import OpenAlice.Trading.Git.Logged

/-!
# Pending is what was submitted last

An order is open when the last result that the log has for it, by commit and then by place inside
the commit, says that it is submitted; the legs that a result brought along are submitted from
there on.  `getPendingOrderIds` goes through the commits from the newest on, but through the results
of each from the oldest on, and keeps the first status it sees.  So it reads the first status that
the newest commit with the order reports, and not the last: the two agree unless one commit has
several results for an order.
-/

namespace OpenAlice.Trading

open OpenAlice.Run

variable {commits : List GitCommit} {c : GitCommit} {id : String}

/-! ## The last result of an order -/

def lastStatus (commits : List GitCommit) (id : String) : Option OperationStatus :=
  (commits.flatMap GitCommit.statuses).reverse.lookup id

/-- **Pending means that the latest status is submitted.** -/
structure PendingIsLatest (commits : List GitCommit) : Prop where
  nodup : ((getPendingOrderIds commits).map PendingOrder.orderId).Nodup
  exact : ∀ id, id ∈ (getPendingOrderIds commits).map PendingOrder.orderId ↔
    lastStatus commits id = some .submitted

def GitCommit.statusesOf (c : GitCommit) (id : String) : List OperationStatus :=
  (c.statuses.filter fun entry ↦ entry.1 = id).map Prod.snd

def newestStatuses (commits : List GitCommit) (id : String) : List OperationStatus :=
  ((commits.reverse.map fun c ↦ c.statusesOf id).find? fun statuses ↦ statuses ≠ []).getD []

/-- The newest commit that has the order begins and ends with it submitted, or neither. -/
def OneVerdict (commits : List GitCommit) : Prop :=
  ∀ id, (newestStatuses commits id).head? = some .submitted ↔
    (newestStatuses commits id).getLast? = some .submitted

/-! ## Which status is read -/

theorem newestStatuses_concat : newestStatuses (commits ++ [c]) id =
      if c.statusesOf id = [] then newestStatuses commits id else c.statusesOf id := by
  rw [newestStatuses, List.reverse_append, List.reverse_singleton, List.singleton_append,
    List.map_cons, List.find?_cons]
  split_ifs with h
  · rw [h, newestStatuses]
    rfl
  · rw [decide_eq_true h]
    rfl

theorem lookup_eq_head? (entries : List (String × OperationStatus)) (id : String) :
    entries.lookup id = ((entries.filter fun entry ↦ entry.1 = id).map Prod.snd).head? := by
  induction entries with
  | nil => rfl
  | cons entry entries ih =>
    obtain ⟨key, status⟩ := entry
    rw [List.lookup_cons, List.filter_cons]
    by_cases hkey : key = id
    · subst hkey
      rw [beq_self_eq_true, decide_eq_true rfl, if_pos rfl]
      rfl
    · rw [beq_false_of_ne (Ne.symm hkey), decide_eq_false hkey, ih]
      rfl

theorem statusesOf_flatMap (commits : List GitCommit) (id : String) :
    ((commits.flatMap GitCommit.statuses).filter fun entry ↦ entry.1 = id).map Prod.snd =
      commits.flatMap fun c ↦ c.statusesOf id := by
  rw [List.filter_flatMap, List.map_flatMap]
  rfl

theorem orderStatus_eq_head? (commits : List GitCommit) (id : String) :
    orderStatus commits id = (newestStatuses commits id).head? := by
  rw [orderStatus, lookup_eq_head?, statusesOf_flatMap]
  induction commits using List.reverseRecOn with
  | nil => rfl
  | append_singleton commits c ih =>
    rw [List.reverse_append, List.reverse_singleton, List.singleton_append, List.flatMap_cons,
      newestStatuses_concat]
    split_ifs with h
    · rw [h, List.nil_append, ih]
    · rw [List.head?_append, List.head?_eq_some_head h, Option.some_or]

theorem lastStatus_eq_getLast? (commits : List GitCommit) (id : String) :
    lastStatus commits id = (newestStatuses commits id).getLast? := by
  rw [lastStatus, lookup_eq_head?, List.filter_reverse, List.map_reverse, List.head?_reverse,
    statusesOf_flatMap]
  induction commits using List.reverseRecOn with
  | nil => rfl
  | append_singleton commits c ih =>
    rw [List.flatMap_append, List.flatMap_singleton, newestStatuses_concat]
    split_ifs with h
    · rw [h, List.append_nil, ih]
    · rw [List.getLast?_append_of_ne_nil _ h]

/-! ## Which orders are listed -/

theorem inLog_of_orderStatus {status : OperationStatus}
    (h : orderStatus commits id = some status) : InLog commits id := by
  obtain ⟨before, after, heq, -⟩ := List.lookup_eq_some_iff.mp h
  have hmem : (id, status) ∈ commits.reverse.flatMap GitCommit.statuses := by
    rw [heq]
    exact List.mem_append_right _ (.head _)
  obtain ⟨c, hc, hstatus⟩ := List.mem_flatMap.mp hmem
  obtain ⟨r, hr, hentry⟩ := List.mem_flatMap.mp hstatus
  refine ⟨c, List.mem_reverse.mp hc, r, hr, ?_⟩
  rcases List.mem_append.mp hentry with hown | hleg
  · obtain ⟨own, hid, hpair⟩ := Option.map_eq_some_iff.mp (Option.mem_toList.mp hown)
    cases hpair
    exact mem_resultIds hid
  obtain ⟨leg, hborn, hpair⟩ := List.mem_map.mp hleg
  cases hpair
  exact List.mem_append_right _ (List.mem_map_of_mem hborn)

theorem mem_pending_iff : id ∈ (getPendingOrderIds commits).map PendingOrder.orderId ↔
      orderStatus commits id = some .submitted := by
  constructor
  · intro h
    obtain ⟨p, hp, rfl⟩ := List.mem_map.mp h
    rcases of_mem_foldl_addPending hp with hnil | ⟨-, hstatus, -⟩
    · cases hnil
    · exact hstatus
  · intro h
    obtain ⟨p, hp, rfl⟩ := pending_of_submitted (inLog_of_orderStatus h) h
    exact List.mem_map_of_mem hp

theorem nodup_foldl_addPending {candidates pending : List PendingOrder}
    (h : (pending.map PendingOrder.orderId).Nodup) :
    ((candidates.foldl (addPending commits) pending).map PendingOrder.orderId).Nodup := by
  induction candidates generalizing pending with
  | nil => exact h
  | cons o candidates ih =>
    apply ih
    rw [addPending]
    split_ifs with hno
    · exact h
    rw [List.map_append, List.map_singleton, List.nodup_append]
    refine ⟨h, List.nodup_singleton _, ?_⟩
    rintro seen hseen new hnew rfl
    rw [List.mem_singleton.mp hnew] at hseen
    exact hno (.inl hseen)

/-- **The listed orders are those whose latest status is submitted**, each once, exactly when no
newest commit of an order has it submitted first and something else last, or the other way round. -/
theorem pending_is_latest (commits : List GitCommit) :
    PendingIsLatest commits ↔ OneVerdict commits := by
  have hread : ∀ id, id ∈ (getPendingOrderIds commits).map PendingOrder.orderId ↔
      (newestStatuses commits id).head? = some .submitted := by
    intro id
    rw [mem_pending_iff, orderStatus_eq_head?]
  constructor
  · intro h id
    rw [← hread, h.exact, lastStatus_eq_getLast?]
  intro h
  refine ⟨nodup_foldl_addPending List.nodup_nil, fun id ↦ ?_⟩
  rw [hread, h id, lastStatus_eq_getLast?]

/-! ## An order that is changed and cancelled at once -/

namespace Git

def changedAndCancelled : List GitEvent :=
  samplePush [] ++
    [.call (.add (.modifyOrder "1" {})), .call (.add (.cancelOrder "1")),
      .call (.commit "never mind" 3), .call (.push "00000000"),
      .resume 6 (.reply (.object true none (some "1") (some { status := "Submitted" }) [])),
      .resume 6 (.reply (.object true none (some "1") (some { status := "Cancelled" }) [])),
      .resume 6 (.state {} 4), .resume 6 .persisted]

/-- The cancelled order is still listed. -/
theorem cancelled_is_listed : ¬ ∀ (pf : Platform) (W : GitWorld),
    Reach (gitProg pf).step anyStep (GitWorld.initial {}) W →
      PendingIsLatest W.shared.git.commits := by
  intro hall
  have hrun : Reach (gitProg constPlatform).step anyStep (GitWorld.initial {}) _ :=
    .of_exec changedAndCancelled rfl
  have hlatest := (hall constPlatform _ hrun).exact "1"
  revert hlatest
  decide +kernel

end Git

end OpenAlice.Trading
