import OpenAlice.Connector.UtaReview

/-!
# When an approval is acted on

A request is judged by the time at which its batch was drained, and acted on after two calls of
its own and all calls of the requests before it.  So it is acted on in time if and only if these
calls leave it so (`acts_fresh_iff`).
-/

namespace OpenAlice.Connector

open OpenAlice.Run OpenAlice.Trading

variable {Op : Type}

def Query.acts : Query → Option UtaRequest
  | .push request | .reject request => some request
  | _ => none

/-! ## Programs that act on nothing -/

/-- A program none of whose calls is a push or a reject. -/
def Idle {α : Type} (p : Bridge Op α) : Prop :=
  ∀ (O : Oracle Query (Reply Op) TradingMode) n, ∀ q ∈ O.calls p n, q.acts = none

section Idle

variable {α β : Type}

theorem idle_ret (a : α) : Idle (.ret a : Bridge Op α) := by
  intro O n q hq
  cases hq

theorem idle_ask {q : Query} (hq : q.acts = none) {k : Reply Op q → Bridge Op α}
    (hk : ∀ r, Idle (k r)) : Idle (.ask q k) := by
  intro O n q' hq'
  rcases List.mem_cons.mp hq' with rfl | hmem
  · exact hq
  · exact hk _ O (n + 1) q' hmem

theorem idle_look {k : Int → TradingMode → Bridge Op α} (hk : ∀ t mode, Idle (k t mode)) :
    Idle (.look k) := by
  intro O n q hq
  exact hk _ _ O n q hq

theorem Idle.bind {p : Bridge Op α} {f : α → Bridge Op β} (hp : Idle p) (hf : ∀ a, Idle (f a)) :
    Idle (p.bind f) := by
  intro O n q hq
  rw [Oracle.calls_bind] at hq
  rcases List.mem_append.mp hq with hmem | hmem
  · exact hp O n q hmem
  · exact hf _ O _ q hmem

theorem Idle.bindOk {p : Bridge Op (Except Thrown α)} {f : α → Bridge Op (Except Thrown β)}
    (hp : Idle p) (hf : ∀ a, Idle (f a)) : Idle (p.bindOk f) := by
  refine hp.bind ?_
  intro a
  cases a with
  | ok a => exact hf a
  | error e => exact idle_ret _

end Idle

variable {compactUtaOperation : Op → UtaOperation}

theorem idle_fail (request : UtaRequest) (reason : FailureReason) (message : Option String) :
    @Idle Op _ (fail request reason message) :=
  idle_ask rfl fun _ ↦ idle_ret ()

theorem idle_failed (request : UtaRequest) (reason : FailureReason) (message : Option String) :
    @Idle Op _ (failed request reason message) :=
  (idle_fail request reason message).bind fun _ ↦ idle_ret _

theorem idle_reviewAll (summaries : List UtaSummary) :
    Idle (reviewAll compactUtaOperation summaries) := by
  induction summaries with
  | nil => exact idle_ret _
  | cons summary rest ih =>
    have hreview : Idle (reviewOf compactUtaOperation summary) := by
      refine idle_ask rfl ?_
      rintro (e | _ | uta)
      · exact idle_ret _
      · exact idle_ret _
      · refine idle_ask rfl ?_
        rintro (e | status) <;> exact idle_ret _
    exact hreview.bindOk fun first ↦ ih.bindOk fun accounts ↦ idle_ret _

theorem idle_buildConnectorUtaReview (mode : TradingMode) :
    Idle (buildConnectorUtaReview compactUtaOperation mode) := by
  unfold buildConnectorUtaReview
  split_ifs
  · exact idle_look fun _ _ ↦ idle_ret _
  refine idle_ask rfl ?_
  rintro (e | utas)
  · exact idle_look fun _ _ ↦ idle_ret _
  · exact (idle_reviewAll _).bindOk fun _ ↦ idle_look fun _ _ ↦ idle_ret _

theorem idle_presentFresh (request : UtaRequest) (mode : TradingMode) (result : Option UtaResult) :
    Idle (presentFresh compactUtaOperation request mode result) := by
  refine (idle_buildConnectorUtaReview mode).bindOk fun review ↦ Idle.bind ?_ fun _ ↦ idle_ret _
  refine idle_ask rfl ?_
  rintro (e | _)
  · exact idle_fail request .deliveryFailed none
  · exact idle_ret ()

theorem idle_recover (request : UtaRequest) (e : Thrown) : @Idle Op _ (recover request e) := by
  unfold recover
  split_ifs <;> exact idle_fail _ _ _

/-! ## A request that is acted on -/

/-- A request gets as far as its push or its reject: it is fresh by the batch's clock, the mode of
trading allows it, and the two calls that it makes first find its account with a commit that can
be approved. -/
structure Admitted (O : Oracle Query (Reply Op) TradingMode) (n : Nat) (request : UtaRequest)
    (now : Int) : Prop where
  fresh : isConnectorActionExpired request.createdAt now = false
  action : request.action ≠ .review
  mode : O.seen n ≠ .lite
  writable : request.action = .push → O.seen n ≠ .readonly
  account : ∃ utaId hash uta status, truthy request.utaId = some utaId ∧
    truthy request.pendingHash = some hash ∧ O.reply n (.get utaId) = .ok (some uta) ∧
    O.reply (n + 1) (.status utaId) = .ok status ∧
    (truthy status.pendingMessage).isNone = false ∧ status.staged.length ≤ maxUtaOperations

variable {O : Oracle Query (Reply Op) TradingMode} {request r : UtaRequest} {n j : Nat} {q : Query}

theorem Idle.absurd {α : Type} {p : Bridge Op α} (hp : Idle p)
    (h : (O.calls p n)[j]? = some q) (hq : q.acts = some r) : False := by
  have hnone := hp O n q (List.mem_of_getElem? h)
  rw [hq] at hnone
  cases hnone

/-- The first call of `act` is the only one that acts. -/
theorem act_cases {mode : TradingMode} {utaId label : String}
    (h : (O.calls (act compactUtaOperation request mode utaId label) n)[j]? = some q)
    (hq : q.acts = some r) :
    j = 0 ∧ r = request ∧ (request.action = .push → mode ≠ .readonly) := by
  unfold act at h
  split_ifs at h with hpush hreadonly
  · exact ((idle_failed request .readonly none).absurd h hq).elim
  · cases j with
    | zero =>
      cases h
      cases hq
      exact ⟨rfl, rfl, fun _ ↦ hreadonly⟩
    | succ j =>
      rw [Oracle.calls_ask, List.getElem?_cons_succ] at h
      split at h
      · cases h
      · exact ((idle_presentFresh _ _ _).absurd h hq).elim
  · cases j with
    | zero =>
      cases h
      cases hq
      exact ⟨rfl, rfl, fun hcontra ↦ absurd hcontra hpush⟩
    | succ j =>
      rw [Oracle.calls_ask, List.getElem?_cons_succ] at h
      split at h
      · cases h
      · exact ((idle_presentFresh _ _ _).absurd h hq).elim

theorem approve_cases {mode : TradingMode}
    (h : (O.calls (approve compactUtaOperation request mode) n)[j]? = some q)
    (hq : q.acts = some r) :
    j = 2 ∧ r = request ∧ mode ≠ .lite ∧ (request.action = .push → mode ≠ .readonly) ∧
      ∃ utaId hash uta status, truthy request.utaId = some utaId ∧
        truthy request.pendingHash = some hash ∧ O.reply n (.get utaId) = .ok (some uta) ∧
        O.reply (n + 1) (.status utaId) = .ok status ∧
        (truthy status.pendingMessage).isNone = false ∧
        status.staged.length ≤ maxUtaOperations := by
  unfold approve at h
  split_ifs at h with hlite
  · exact ((idle_failed _ _ _).absurd h hq).elim
  split at h
  · exact ((idle_failed _ _ _).absurd h hq).elim
  · exact ((idle_failed _ _ _).absurd h hq).elim
  · rename_i utaId hash hid hhash
    cases j with
    | zero =>
      cases h
      cases hq
    | succ j =>
      rw [Oracle.calls_ask, List.getElem?_cons_succ] at h
      split at h
      · cases h
      · exact ((idle_failed _ _ _).absurd h hq).elim
      · rename_i uta huta
        cases j with
        | zero =>
          cases h
          cases hq
        | succ j =>
          rw [Oracle.calls_ask, List.getElem?_cons_succ] at h
          split at h
          · cases h
          rename_i status hstatus
          split_ifs at h with hmessage hstaged
          · exact ((idle_presentFresh _ _ _).absurd h hq).elim
          · exact ((idle_presentFresh _ _ _).absurd h hq).elim
          · obtain ⟨rfl, rfl, hwritable⟩ := act_cases h hq
            exact ⟨rfl, rfl, hlite, hwritable, utaId, hash, uta, status, hid, hhash, huta,
              hstatus, Bool.eq_false_iff.mpr hmessage, Nat.le_of_not_lt hstaged⟩

theorem fulfill_cases {now : Int}
    (h : (O.calls (fulfillUtaRequest compactUtaOperation request now) n)[j]? = some q)
    (hq : q.acts = some r) : j = 2 ∧ r = request ∧ Admitted O n request now := by
  unfold fulfillUtaRequest at h
  split_ifs at h with hexpired hreview
  · exact ((idle_fail _ _ _).absurd h hq).elim
  · refine (Idle.absurd (idle_look fun _ _ ↦ (idle_presentFresh _ _ _).bind ?_) h hq).elim
    rintro (e | _)
    · exact idle_recover request e
    · exact idle_ret ()
  · rw [Oracle.calls_look, Oracle.calls_bind, List.getElem?_append] at h
    split_ifs at h with hlt
    · obtain ⟨hj, hr, hmode, hwritable, haccount⟩ := approve_cases h hq
      exact ⟨hj, hr, Bool.eq_false_iff.mpr hexpired, hreview, hmode, hwritable, haccount⟩
    split at h
    · cases h
    · exact ((idle_recover request _).absurd h hq).elim

theorem fulfill_of_admitted (compactUtaOperation : Op → UtaOperation) {now : Int}
    (h : Admitted O n request now) :
    ∃ q, (O.calls (fulfillUtaRequest compactUtaOperation request now) n)[2]? = some q ∧
      q.acts = some request := by
  obtain ⟨hfresh, haction, hmode, hwritable, utaId, hash, uta, status, hid, hhash, huta, hstatus,
    hmessage, hstaged⟩ := h
  have happrove : ∃ q, (O.calls (approve compactUtaOperation request (O.seen n)) n)[2]? = some q ∧
      q.acts = some request := by
    unfold approve
    rw [if_neg hmode, hid, hhash]
    simp only [Oracle.calls_ask, huta, hstatus, hmessage, List.getElem?_cons_succ,
      Bool.false_eq_true, if_false, if_neg (Nat.not_lt.mpr hstaged)]
    unfold act
    split_ifs with hpush hreadonly
    · exact absurd hreadonly (hwritable hpush)
    · exact ⟨_, rfl, rfl⟩
    · exact ⟨_, rfl, rfl⟩
  obtain ⟨q, hq, hacts⟩ := happrove
  refine ⟨q, ?_, hacts⟩
  unfold fulfillUtaRequest
  rw [if_neg (by rw [hfresh]; exact Bool.false_ne_true), Oracle.calls_look, if_neg haction,
    Oracle.calls_bind, List.getElem?_append_left (List.getElem?_eq_some_iff.mp hq).1]
  exact hq

/-! ## The batch -/

variable (compactUtaOperation O)

/-- The number of the first call that is made for request number `k` of a batch. -/
def firstCall (requests : List UtaRequest) (k : Nat) : Nat :=
  O.next (.forEach (requests.take k) fun request ↦
    fulfillUtaRequest compactUtaOperation request (O.clock 2)) 2

/-- Every push and reject is called at most the time to live after its request was made. -/
def ActsFresh : Prop :=
  ∀ (i : Nat) q request,
    (O.calls (processConnectorUtaRequests compactUtaOperation) 0)[i]? = some q →
    q.acts = some request →
    ∃ created, request.createdAt = some created ∧ O.clock i ≤ created + actionTtlMs

/-- For every request that is admitted, the calls since the clock was read (all calls for the
requests before it, and its own two) take no longer than what was left of its time. -/
def LeavesTime : Prop :=
  ∀ requests, O.reply 0 .isEnabled = .ok true → O.reply 1 .drainUtaActions = .ok requests →
    ∀ (k : Nat) request created, requests[k]? = some request →
      Admitted O (firstCall compactUtaOperation O requests k) request (O.clock 2) →
      request.createdAt = some created →
      ((∑ i ∈ Finset.Ico 2 (firstCall compactUtaOperation O requests k + 2), O.duration i : Nat) :
        Int) ≤ created + actionTtlMs - O.clock 2

variable {compactUtaOperation O}

theorem clock_add {n m : Nat} (h : n ≤ m) :
    O.clock m = O.clock n + ((∑ i ∈ Finset.Ico n m, O.duration i : Nat) : Int) := by
  have hsum := Finset.sum_range_add_sum_Ico O.duration h
  unfold Oracle.clock
  omega

theorem calls_process {i : Nat} (hq : q.acts = some request) :
    (O.calls (processConnectorUtaRequests compactUtaOperation) 0)[i]? = some q ↔
      ∃ requests k a j, O.reply 0 .isEnabled = .ok true ∧
        O.reply 1 .drainUtaActions = .ok requests ∧ requests[k]? = some a ∧
        i = firstCall compactUtaOperation O requests k + j ∧
        (O.calls (fulfillUtaRequest compactUtaOperation a (O.clock 2))
          (firstCall compactUtaOperation O requests k))[j]? = some q := by
  unfold processConnectorUtaRequests
  constructor
  · intro h
    rw [Oracle.calls_ask] at h
    cases i with
    | zero =>
      cases h
      cases hq
    | succ i =>
      rw [List.getElem?_cons_succ] at h
      split at h
      · rename_i henabled
        rw [Oracle.calls_ask] at h
        cases i with
        | zero =>
          cases h
          cases hq
        | succ i =>
          rw [List.getElem?_cons_succ] at h
          split at h
          · rename_i requests hdrain
            rw [Oracle.calls_look, Oracle.getElem?_calls_forEach] at h
            obtain ⟨k, a, j, ha, hij, hcall⟩ := h
            exact ⟨requests, k, a, j, henabled, hdrain, ha, (Nat.add_comm i 2).trans hij, hcall⟩
          · cases h
      · cases h
  · rintro ⟨requests, k, a, j, henabled, hdrain, ha, hij, hcall⟩
    have hge : 2 ≤ firstCall compactUtaOperation O requests k := Nat.le_add_right _ _
    obtain ⟨i, rfl⟩ : ∃ i', i = i' + 2 := ⟨i - 2, by omega⟩
    rw [Oracle.calls_ask, henabled]
    simp only [Oracle.calls_ask, List.getElem?_cons_succ, hdrain, Oracle.calls_look]
    exact O.getElem?_calls_forEach.mpr ⟨k, a, j, ha, (Nat.add_comm 2 i).trans hij, hcall⟩

/-- **A batch is acted on in time** if and only if the calls that it makes leave it the time. -/
theorem acts_fresh_iff : ActsFresh compactUtaOperation O ↔ LeavesTime compactUtaOperation O := by
  have hclock : ∀ requests k, O.clock (firstCall compactUtaOperation O requests k + 2) =
      O.clock 2 + ((∑ i ∈ Finset.Ico 2 (firstCall compactUtaOperation O requests k + 2),
        O.duration i : Nat) : Int) := by
    intro requests k
    exact clock_add (Nat.le_add_left 2 _)
  constructor
  · intro h requests henabled hdrain k request created hrequest hadmitted hcreated
    obtain ⟨q, hq, hacts⟩ := fulfill_of_admitted compactUtaOperation hadmitted
    obtain ⟨created', hcreated', hle⟩ := h _ q request ((calls_process hacts).mpr
      ⟨requests, k, request, 2, henabled, hdrain, hrequest, rfl, hq⟩) hacts
    cases hcreated.symm.trans hcreated'
    rw [hclock] at hle
    omega
  · intro h i q request hq hacts
    obtain ⟨requests, k, a, j, henabled, hdrain, ha, rfl, hcall⟩ := (calls_process hacts).mp hq
    obtain ⟨rfl, rfl, hadmitted⟩ := fulfill_cases hcall hacts
    obtain ⟨created, hcreated⟩ : ∃ created, request.createdAt = some created := by
      cases hcreated : request.createdAt with
      | some created => exact ⟨created, rfl⟩
      | none =>
        have hfresh := hadmitted.fresh
        rw [hcreated] at hfresh
        cases hfresh
    refine ⟨created, hcreated, ?_⟩
    have hle := h requests henabled hdrain k request created ha hadmitted hcreated
    rw [hclock]
    omega

end OpenAlice.Connector
