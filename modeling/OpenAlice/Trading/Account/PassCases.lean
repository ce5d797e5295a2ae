import OpenAlice.Trading.Account.Passes
import OpenAlice.Trading.Git.Logged

/-!
# What a stretch of a pass can do

A pass carries results on their way into the log, and order ids it has read off
the log.  `Stretch` says, of a later stretch of any call, where the results and
ids it ends with come from and what it put into the log; `walk_spec` says the
same of the loop over the positions.  The invariants of the account are proved
from these facts.
-/

namespace OpenAlice.Trading.Passes

open OpenAlice.Run OpenAlice.Trading.Git TradingGit

/-! ## What a call carries -/

def PassTask.results : PassTask → List OperationResult
  | .git (.executing _ _ _ results) => results
  | .git (.snapshotting p) => p.results
  | .polling _ _ updates | .stating updates => updates.map syncRow
  | _ => []

def PassTask.pairs : PassTask → List (Operation × Option OperationResult)
  | .git (.executing operations _ _ results) => paired operations results
  | .git (.snapshotting p) => paired p.operations p.results
  | _ => []

def PassTask.candidates : PassTask → List PendingOrder
  | .git (.executing operations _ _ results) => candidatesOf operations results
  | .git (.snapshotting p) => candidatesOf p.operations p.results
  | _ => []

/-- A push or a reject between passing its checks and its `finally`. -/
def PassTask.writing : PassTask → Bool
  | .git t => t.writing
  | _ => false

/-- The order ids a sync has read off the log. -/
def PassTask.watched : PassTask → List String
  | .delaying pendingOrders | .listing pendingOrders => pendingOrders.map PendingOrder.orderId
  | .polling o candidates updates =>
    o.orderId :: (candidates.map PendingOrder.orderId ++
      updates.map OrderStatusUpdate.orderId)
  | .stating updates => updates.map OrderStatusUpdate.orderId
  | _ => []

/-- `getPositions` between the broker's answer and its end. -/
def PassTask.reads : PassTask → Bool
  | .arriving .. | .reconciling .. => true
  | _ => false

abbrev Shared.inflight (S : Shared) : Bool := Git.inflight S.ledger

def PassTask.Quiet : PassTask → Prop
  | .git t => t.Quiet
  | _ => True

def newReplies : PassTask → PassAnswer → List (Operation × OperationResult)
  | .git t, .git a _ => repliesOf t a
  | _, _ => []

/-- A result that a stretch adds to those its call carries. -/
inductive Fresh : PassTask → PassAnswer → OperationResult → Prop
  /-- A dispatch was answered. -/
  | replied {k : PassTask} {a : PassAnswer} {op : Operation} {r : OperationResult}
      (h : (op, r) ∈ newReplies k a) : Fresh k a r
  | threw {k : PassTask} {a : PassAnswer} (op : Operation) (text : String) :
      Fresh k a (thrownResult op text)
  | polled {o : PendingOrder} {candidates : List PendingOrder} {updates : List OrderStatusUpdate}
      {brokerOrder : OpenOrder} {u : OrderStatusUpdate} (h : updateOf o brokerOrder = some u) :
      Fresh (.polling o candidates updates) (.order (some brokerOrder)) (syncRow u)

inductive Appends (k : PassTask) : List Operation → List OperationResult → Prop
  | written {p : Pending} (hk : k = .git (.snapshotting p)) : Appends k p.operations p.results
  | synced {updates : List OrderStatusUpdate} (hk : k = .stating updates) :
      Appends k [.syncOrders] (updates.map syncRow)
  | reconciled (p : ReconcileParams) (hk : k.reads = true) : Appends k [p.operation] [p.result]

/-- `getGitState` throws in a write. -/
def FailsSnapshot (k : PassTask) (a : PassAnswer) : Prop :=
  ∃ p text now, k = .git (.snapshotting p) ∧ a = .git (.threw text) now

/-- Everything the invariants need to know about a later stretch. -/
structure Stretch (S : Shared) (k : PassTask) (a : PassAnswer) (S' : Shared) (k' : PassTask) :
    Prop where
  orders : S'.orders = S.orders
  replies : S'.replies = S.replies ++ newReplies k a
  log : S'.commits = S.commits ∨
    ∃ c : GitCommit, Appends k c.operations c.results ∧ S'.commits = S.commits ++ [c]
  results : ∀ r ∈ k'.results, r ∈ k.results ∨ Fresh k a r
  watched : ∀ id ∈ k'.watched, id ∈ k.watched
  /-- A result stays with its write, unless it went into the log or was lost. -/
  kept : ∀ op r, (op, some r) ∈ k.pairs → (op, some r) ∈ k'.pairs ∨
    (∃ c : GitCommit, S'.commits = S.commits ++ [c] ∧ (op, some r) ∈ c.pairs) ∨ FailsSnapshot k a
  /-- A reply stays with the write that dispatched. -/
  joined : ∀ op r, (op, r) ∈ newReplies k a → (op, some r) ∈ k'.pairs
  /-- What a write holds it held before, or it was just replied, or names no
  order. -/
  traced : ∀ op r, (op, some r) ∈ k'.pairs → (op, some r) ∈ k.pairs ∨ (op, r) ∈ newReplies k a ∨
    resultId r = none
  /-- A write lists the orders of one more reply, or none any more. -/
  listed : k'.candidates = k.candidates ∨ k'.candidates = [] ∨
    ∃ op r, ((op, r) ∈ newReplies k a ∨ resultIds r = []) ∧
      k'.candidates = k.candidates ++ candidatesUnder (some op) r
  flag : S'.inflight = S.inflight ∧ k'.writing = k.writing ∨
    k.writing = true ∧ k'.writing = false ∧ S'.inflight = false
  quiet : k.Quiet → k'.Quiet

def ordersAfter (orders : List BrokerOrder) : PassCall → List BrokerOrder
  | .broker e => e.apply orders
  | _ => orders

/-- Everything the invariants need to know about a first stretch: it records
nothing. -/
structure Opening (S : Shared) (c : PassCall) (S' : Shared) (k' : PassTask) : Prop where
  orders : S'.orders = ordersAfter S.orders c
  replies : S'.replies = S.replies
  log : S'.commits = S.commits
  results : ∀ r ∈ k'.results, resultIds r = []
  watched : ∀ id ∈ k'.watched, id ∈ (getPendingOrderIds S.commits).map PendingOrder.orderId
  flag : S'.inflight = S.inflight ∧ k'.writing = false ∨
    S.inflight = false ∧ k'.writing = true ∧ S'.inflight = true
  quiet : k'.Quiet

/-! ## The stretches of a write -/

variable {cfg : PassConfig} {S S' : Shared} {i : Nat} {k k' : PassTask}

variable {results : List OperationResult} {operations : List Operation} {hash : CommitHash}
variable {message : String}

theorem repliesOf_reply {op : Operation} {raw : RawReply}
    (hop : operations[results.length]? = some op) :
    repliesOf (.executing operations message hash results) (.reply raw) =
      [(op, parseOperationResult op raw)] := by
  simp [repliesOf, hop]

/-- The result of a dispatch is read off a reply that was recorded in the history,
or made of an error. -/
theorem Answered.fresh {op : Operation} {a : Answer} {r : OperationResult}
    {now : Timestamp} (hop : operations[results.length]? = some op) (hr : Answered op a r) :
    Fresh (.git (.executing operations message hash results)) (.git a now) r ∧
      ∀ op' r', (op', r') ∈ repliesOf (.executing operations message hash results) a →
        op' = op ∧ r' = r := by
  cases hr with
  | replied raw =>
    constructor
    · refine .replied (?_ : (op, _) ∈ newReplies _ _)
      rw [newReplies, repliesOf_reply hop]
      exact List.mem_singleton_self _
    intro op' r' h
    rw [repliesOf_reply hop, List.mem_singleton] at h
    cases h
    exact ⟨rfl, rfl⟩
  | threw text =>
    refine ⟨.threw op text, ?_⟩
    rintro op' r' ⟨⟩

theorem Answered.replied_or {op : Operation} {a : Answer} {r : OperationResult}
    (hop : operations[results.length]? = some op) (hr : Answered op a r) :
    (op, r) ∈ repliesOf (.executing operations message hash results) a ∨ resultIds r = [] := by
  cases hr with
  | replied raw =>
    left
    rw [repliesOf_reply hop]
    exact List.mem_singleton_self _
  | threw text => exact .inr rfl

theorem stretch_executing {op₀ : Operation} {a : Answer} {r : OperationResult}
    {L : Ledger} (now : Timestamp) (hop : operations[results.length]? = some op₀)
    (hr : Answered op₀ a r) (hL : L.git.commits = S.commits)
    (hflag : L.git.inflightWrite = S.inflight) (hresults : k'.results = results ++ [r])
    (hpairs : k'.pairs = paired operations (results ++ [r]))
    (hcandidates : k'.candidates = candidatesOf operations (results ++ [r]))
    (hwatched : k'.watched = []) (hwriting : k'.writing = true)
    (hquiet : Git.Quiet results → k'.Quiet) :
    Stretch S (.git (.executing operations message hash results)) (.git a now)
      { S with ledger := L
               replies := S.replies ++ repliesOf (.executing operations message hash results) a }
      k' := by
  obtain ⟨hfresh, hnew⟩ : Fresh (.git (.executing operations message hash results)) (.git a now) r ∧
        ∀ op' r', (op', r') ∈ repliesOf (.executing operations message hash results) a →
          op' = op₀ ∧ r' = r := Answered.fresh hop hr
  constructor
  · rfl
  · rfl
  · exact .inl hL
  · intro r' hr'
    rw [hresults, List.mem_append, List.mem_singleton] at hr'
    rcases hr' with hr' | rfl
    · exact .inl hr'
    · exact .inr hfresh
  · rw [hwatched]
    intro id hid
    cases hid
  · intro op r' h
    rw [hpairs]
    exact .inl (mem_paired_append [r] h)
  · intro op r' h
    obtain ⟨rfl, rfl⟩ := hnew op r' h
    rw [hpairs]
    exact mem_paired_next r' hop
  · intro op r' h
    rw [hpairs] at h
    rcases of_mem_paired_concat hop h with h | ⟨rfl, rfl⟩
    · exact .inl h
    · exact .inr ((Answered.replied_or hop hr).imp_right resultId_of_nil)
  · refine .inr (.inr ⟨op₀, r, Answered.replied_or hop hr, ?_⟩)
    rw [hcandidates, candidatesOf_concat r hop]
    rfl
  · exact .inl ⟨hflag, hwriting⟩
  · exact hquiet

theorem pairs_of_not_writing (h : k.writing = false) : k.pairs = [] ∧ k.candidates = [] := by
  cases k with
  | git t =>
    cases t with
    | executing | snapshotting => cases h
    | _ => exact ⟨rfl, rfl⟩
  | _ => exact ⟨rfl, rfl⟩

variable {a : PassAnswer}

theorem stretch_silent (ho : S'.orders = S.orders)
    (hr : S'.replies = S.replies) (hreplies : newReplies k a = [])
    (hlog : S'.commits = S.commits ∨
      ∃ c : GitCommit, Appends k c.operations c.results ∧ S'.commits = S.commits ++ [c])
    (hresults : ∀ r ∈ k'.results, r ∈ k.results ∨ Fresh k a r)
    (hwatched : ∀ id ∈ k'.watched, id ∈ k.watched)
    (hpairs : k.pairs = [] ∨ FailsSnapshot k a) (hidle : k'.writing = false)
    (hflag : S'.inflight = S.inflight ∧ k.writing = false ∨
      k.writing = true ∧ S'.inflight = false) (hquiet : k'.Quiet) : Stretch S k a S' k' := by
  obtain ⟨hpairs', hcandidates'⟩ := pairs_of_not_writing hidle
  constructor
  · exact ho
  · rw [hr, hreplies, List.append_nil]
  · exact hlog
  · exact hresults
  · exact hwatched
  · intro op r h
    rcases hpairs with hpairs | hfails
    · rw [hpairs] at h
      cases h
    · exact .inr (.inr hfails)
  · rw [hreplies]
    intro op r h
    cases h
  · rw [hpairs']
    intro op r h
    cases h
  · exact .inr (.inl hcandidates')
  · rcases hflag with ⟨hflag, hk⟩ | ⟨hk, hflag⟩
    · exact .inl ⟨hflag, hidle.trans hk.symm⟩
    · exact .inr ⟨hk, hidle, hflag⟩
  · exact fun _ ↦ hquiet

theorem stretch_git {t t' : Task} {a : Answer} {L : Ledger} (now : Timestamp)
    (h : Resumed S.ledger i t a L t') :
    Stretch S (.git t) (.git a now)
      { S with ledger := L, replies := S.replies ++ repliesOf t a } (.git t') := by
  cases h with
  | dispatched hop₀ hr hop =>
    exact stretch_executing now hop₀ hr rfl rfl rfl rfl rfl rfl rfl fun hq ↦ quiet_concat hq hr.fill
  | executed hop₀ hr hlen =>
    exact stretch_executing now hop₀ hr rfl rfl rfl rfl rfl rfl rfl fun hq ↦ quiet_concat hq hr.fill
  | @appended p s at' =>
    constructor
    · rfl
    · rfl
    · exact .inr ⟨_, .written rfl, rfl⟩
    · intro r hr
      cases hr
    · intro id hid
      cases hid
    · intro op r h
      exact .inr (.inl ⟨_, rfl, h⟩)
    · intro op r h
      cases h
    · intro op r h
      cases h
    · exact .inr (.inl rfl)
    · exact .inl ⟨rfl, rfl⟩
    · exact id
  | cleared =>
    exact stretch_silent rfl (List.append_nil _) rfl (.inl rfl) (by simp [PassTask.results])
      (by simp [PassTask.watched]) (.inl rfl) rfl (.inr ⟨rfl, rfl⟩) trivial
  | @failed p t text o ht =>
    have hpairs : (PassTask.git t).pairs = [] ∨ FailsSnapshot (.git t) (.git (.threw text) now) := by
      rcases ht with rfl | rfl
      · exact .inr ⟨p, text, now, rfl, rfl⟩
      · exact .inl rfl
    have hreplies : repliesOf t (.threw text) = [] := by
      rcases ht with rfl | rfl <;> rfl
    have hwriting : (PassTask.git t).writing = true := by
      rcases ht with rfl | rfl <;> rfl
    exact stretch_silent rfl (by rw [hreplies, List.append_nil]) hreplies (.inl rfl)
      (by simp [PassTask.results]) (by simp [PassTask.watched]) hpairs rfl (.inr ⟨hwriting, rfl⟩)
      trivial
  | settled =>
    exact stretch_silent rfl (List.append_nil _) rfl (.inl rfl) (by simp [PassTask.results])
      (by simp [PassTask.watched]) (.inl rfl) rfl (.inl ⟨rfl, rfl⟩) trivial

/-! ## The stretches of a sync -/

theorem poll_shared (candidates : List PendingOrder) (updates : List OrderStatusUpdate) :
    (poll S candidates updates).1 = S := by
  cases candidates with
  | nil =>
    simp only [poll]
    split <;> rfl
  | cons o rest => rfl

theorem poll_task (S : Shared) (candidates : List PendingOrder) (updates : List OrderStatusUpdate) :
    (∀ r ∈ (poll S candidates updates).2.results, r ∈ updates.map syncRow) ∧
      (∀ id ∈ (poll S candidates updates).2.watched, id ∈ candidates.map PendingOrder.orderId ∨
        id ∈ updates.map OrderStatusUpdate.orderId) ∧
      (poll S candidates updates).2.writing = false ∧ (poll S candidates updates).2.Quiet := by
  cases candidates with
  | nil =>
    simp only [poll]
    split
    · exact ⟨by simp [nothingSynced, PassTask.results],
        by simp [nothingSynced, PassTask.watched], rfl, trivial⟩
    · exact ⟨fun r hr ↦ hr, fun id hid ↦ .inr hid, rfl, trivial⟩
  | cons o rest =>
    simp only [poll, PassTask.results, PassTask.watched]
    refine ⟨fun r hr ↦ hr, ?_, rfl, trivial⟩
    intro id hid
    rw [← List.cons_append, List.mem_append] at hid
    exact hid

theorem dueOrders_sublist (now : Timestamp) (pollState : List (String × Poll))
    (pendingOrders : List PendingOrder) :
    (dueOrders now pollState pendingOrders).2.Sublist pendingOrders := by
  induction pendingOrders generalizing pollState with
  | nil => exact .slnil
  | cons o rest ih =>
    simp only [dueOrders]
    split
    · exact (ih _).cons_cons o
    · exact (ih _).cons o

theorem query_task (cfg : PassConfig) (S : Shared) (pendingOrders : List PendingOrder)
    (now : Timestamp) :
    (query cfg S pendingOrders now).2.results = [] ∧
      (∀ id ∈ (query cfg S pendingOrders now).2.watched,
        id ∈ pendingOrders.map PendingOrder.orderId) ∧
      (query cfg S pendingOrders now).2.writing = false ∧
        (query cfg S pendingOrders now).2.Quiet := by
  simp only [query]
  split
  · exact ⟨rfl, fun _ h ↦ h, rfl, trivial⟩
  obtain ⟨hresults, hwatched, hidle, hquiet⟩ := poll_task
    { S with pollState := (dueOrders now S.pollState pendingOrders).1 }
    (dueOrders now S.pollState pendingOrders).2 []
  refine ⟨?_, ?_, hidle, hquiet⟩
  · exact List.eq_nil_iff_forall_not_mem.mpr fun r hr ↦ List.not_mem_nil (hresults r hr)
  intro id hid
  rcases hwatched id hid with h | h
  · exact (dueOrders_sublist _ _ _).map _ |>.mem h
  · cases h

theorem query_shared (cfg : PassConfig) (S : Shared) (pendingOrders : List PendingOrder)
    (now : Timestamp) :
    ∃ pollState, (query cfg S pendingOrders now).1 = { S with pollState } := by
  simp only [query]
  split
  · exact ⟨S.pollState, rfl⟩
  · exact ⟨_, poll_shared _ _⟩

/-! ## The loop over the positions -/

/-- What a stretch of the loop does: it comes to its end, or to a wallet position
that drifts apart and that no order in flight explains, and records that. -/
inductive Walked (cfg : PassConfig) (S : Shared) (w : Walk) (positions : List Position) :
    Shared → PassTask → Prop
  | ended (o : PassOutcome) : Walked cfg S w positions S (.done o)
  | records {before : List Position} {p : Position} {aliceId : String} {rest : List Position}
      {params : ReconcileParams} {L : Ledger} {t : Task} (hsuffix : p :: rest <:+ positions)
      (hid : walletId p = some aliceId) (hdrift : driftsApart cfg S w aliceId p)
      (haliceId : params.aliceId = aliceId)
      (hdelta : params.quantityDelta = drift cfg S aliceId p)
      (hlog : ∃ c : GitCommit, c.operations = [params.operation] ∧ c.results = [params.result] ∧
        L.git.commits = S.commits ++ [c])
      (hflag : L.git.inflightWrite = S.inflight) :
      Walked cfg S w positions { S with ledger := L }
        (.reconciling t { w with before } p aliceId rest)

variable {positions : List Position}

theorem Walked.rebase {w : Walk} {before : List Position}
    (h : Walked cfg S { w with before } positions S' k) : Walked cfg S w positions S' k := by
  cases h with
  | ended o => exact .ended o
  | records hsuffix hid hdrift haliceId hdelta hlog hflag =>
    exact .records hsuffix hid hdrift haliceId hdelta hlog hflag

theorem Walked.cons {w : Walk} {p : Position}
    (h : Walked cfg S w positions S' k) : Walked cfg S w (p :: positions) S' k := by
  cases h with
  | ended o => exact .ended o
  | records hsuffix hid hdrift haliceId hdelta hlog hflag =>
    exact .records (hsuffix.trans (List.suffix_cons _ _)) hid hdrift haliceId hdelta hlog hflag

theorem walk_spec (i : Nat) (now : Timestamp) (w : Walk) (positions : List Position) :
    Walked cfg S w positions (walk cfg S i now w positions).1 (walk cfg S i now w positions).2 := by
  induction positions generalizing w with
  | nil => exact .ended _
  | cons p rest ih =>
    simp only [walk]
    split
    · exact (ih _).rebase.cons
    rename_i aliceId hid
    split
    · rename_i hdrift
      exact .records List.suffix_rfl hid hdrift rfl rfl ⟨_, rfl, rfl, rfl⟩ rfl
    · exact (ih _).rebase.cons

/-- Once a reconciliation is recorded the loop goes on, or `getPositions`
fails. -/
theorem reconciled_spec (i : Nat) (now : Timestamp) (w : Walk) (p : Position) (aliceId : String)
    (rest : List Position) (t : Task) :
    Walked cfg S w rest (reconciled cfg S i now w p aliceId rest t).1
      (reconciled cfg S i now w p aliceId rest t).2 := by
  unfold reconciled
  split
  · exact .ended _
  · exact (walk_spec i now { w with before := w.before ++ [reprice cfg S aliceId p] } rest).rebase

theorem Walked.stretch {w : Walk}
    (h : Walked cfg S w positions S' k') (hreads : k.reads = true)
    (hreplies : newReplies k a = []) :
    Stretch S k a S' k' := by
  have hk : k.writing = false := by
    cases k with
    | arriving | reconciling => rfl
    | _ => cases hreads
  have hpairs := (pairs_of_not_writing hk).1
  cases h with
  | ended o =>
    exact stretch_silent rfl rfl hreplies (.inl rfl) (by simp [PassTask.results])
      (by simp [PassTask.watched]) (.inl hpairs) rfl (.inl ⟨rfl, hk⟩) trivial
  | @records before p aliceId rest params L t _ _ _ _ _ hlog hflag =>
    obtain ⟨c, ho, hr, hL⟩ := hlog
    exact stretch_silent rfl rfl hreplies (.inr ⟨c, ho ▸ hr ▸ .reconciled params hreads, hL⟩)
      (by simp [PassTask.results]) (by simp [PassTask.watched]) (.inl hpairs) rfl
      (.inl ⟨hflag, hk⟩) trivial

/-! ## All first stretches -/

theorem opening_client (cfg : PassConfig) (S : Shared) (i : Nat)
    (c : { c : Call // c.isClient = true }) :
    Opening S (.client c) { S with ledger := (Git.start cfg.toPlatform S.ledger i c.1).1 }
      (.git (Git.start cfg.toPlatform S.ledger i c.1).2) := by
  obtain ⟨c, hc⟩ := c
  have hs := start_spec cfg.toPlatform S.ledger i c
  generalize Git.start cfg.toPlatform S.ledger i c = q at hs ⊢
  obtain ⟨L, t⟩ := q
  refine ⟨rfl, rfl, ?_, ?_, by simp [PassTask.watched], ?_, hs.quiet⟩
  · cases hs with
    | recorded hr => cases hr <;> cases hc
    | _ => rfl
  · cases hs with
    | rejecting _ _ _ _ _ =>
      intro r hr
      obtain ⟨op, _, rfl⟩ := List.mem_map.mp hr
      rfl
    | _ =>
      intro r hr
      cases hr
  · cases hs with
    | pushed hf _ _ _ => exact .inr ⟨hf, rfl, rfl⟩
    | rejecting hf _ _ _ _ => exact .inr ⟨hf, rfl, rfl⟩
    | recorded hr => cases hr <;> cases hc
    | _ => exact .inl ⟨rfl, rfl⟩

theorem opening_sync (cfg : PassConfig) (S : Shared) (delayed : Bool) (now : Timestamp) :
    Opening S (.sync delayed now) (startSync cfg S delayed now).1
      (startSync cfg S delayed now).2 := by
  simp only [startSync]
  split
  · exact ⟨rfl, rfl, rfl, by simp [nothingSynced, PassTask.results],
      by simp [nothingSynced, PassTask.watched], .inl ⟨rfl, rfl⟩, trivial⟩
  split
  · exact ⟨rfl, rfl, rfl, by simp [PassTask.results], fun _ h ↦ h, .inl ⟨rfl, rfl⟩, trivial⟩
  obtain ⟨hresults, hwatched, hidle, hquiet⟩ :=
    query_task cfg S (getPendingOrderIds S.commits) now
  obtain ⟨pollState, hS⟩ := query_shared cfg S (getPendingOrderIds S.commits) now
  rw [hS]
  refine ⟨rfl, rfl, rfl, ?_, hwatched, .inl ⟨rfl, hidle⟩, hquiet⟩
  rw [hresults]
  intro r hr
  cases hr

theorem opening_spec (cfg : PassConfig) (S : Shared) (i : Nat) (c : PassCall) :
    Opening S c (start cfg S i c).1 (start cfg S i c).2 := by
  cases c with
  | client c => exact opening_client cfg S i c
  | sync delayed now => exact opening_sync cfg S delayed now
  | getPositions =>
    exact ⟨rfl, rfl, rfl, by simp [start, PassTask.results], by simp [start, PassTask.watched],
      .inl ⟨rfl, rfl⟩, trivial⟩
  | broker e =>
    exact ⟨rfl, rfl, rfl, by simp [start, PassTask.results], by simp [start, PassTask.watched],
      .inl ⟨rfl, rfl⟩, trivial⟩

/-! ## All later stretches -/

theorem updateOf_orderId {o : PendingOrder} {brokerOrder : OpenOrder} {u : OrderStatusUpdate}
    (h : updateOf o brokerOrder = some u) : u.orderId = o.orderId := by
  simp only [updateOf] at h
  split at h
  · cases h
  · cases h
    rfl

theorem stretch_polling {o : PendingOrder} {candidates : List PendingOrder}
    {updates new : List OrderStatusUpdate}
    (hreplies : newReplies (.polling o candidates updates) a = [])
    (hfresh : ∀ u ∈ new, Fresh (.polling o candidates updates) a (syncRow u) ∧
      u.orderId = o.orderId) :
    Stretch S (.polling o candidates updates) a (poll S candidates (updates ++ new)).1
      (poll S candidates (updates ++ new)).2 := by
  obtain ⟨hresults, hwatched, hidle, hquiet⟩ := poll_task S candidates (updates ++ new)
  rw [poll_shared]
  refine stretch_silent rfl rfl hreplies (.inl rfl) ?_ ?_ (.inl rfl) hidle (.inl ⟨rfl, rfl⟩) hquiet
  · intro r hr
    have hr := hresults r hr
    rw [List.map_append, List.mem_append] at hr
    refine hr.imp_right ?_
    intro hnew
    obtain ⟨u, hu, rfl⟩ := List.mem_map.mp hnew
    exact (hfresh u hu).1
  · intro id hid
    rw [PassTask.watched, List.mem_cons, List.mem_append]
    rcases hwatched id hid with h | h
    · exact .inr (.inl h)
    rw [List.map_append, List.mem_append] at h
    rcases h with h | h
    · exact .inr (.inr h)
    · obtain ⟨u, hu, rfl⟩ := List.mem_map.mp h
      exact .inl (hfresh u hu).2

theorem resume_stating {updates : List OrderStatusUpdate}
    (h : resume cfg S i (.stating updates) a = some (S', k')) :
    (∃ s hashedAt now, a = .state s hashedAt now) ∨ S' = S := by
  cases a with
  | state s hashedAt now => exact .inl ⟨s, hashedAt, now, rfl⟩
  | threw text =>
    right
    simp only [resume, failed, Option.some.injEq, Prod.mk.injEq] at h
    exact h.1.symm
  | _ => simp only [resume, reduceCtorEq] at h

theorem stretch_failed (text : String) (hk : k.writing = false) (hreplies : newReplies k a = []) :
    Stretch S k a (failed S text).1 (failed S text).2 :=
  stretch_silent rfl rfl hreplies (.inl rfl) (by simp [failed, PassTask.results])
    (by simp [failed, PassTask.watched]) (.inl (pairs_of_not_writing hk).1) rfl (.inl ⟨rfl, hk⟩)
    trivial

theorem stretch_delaying (cfg : PassConfig) (pendingOrders : List PendingOrder) (now : Timestamp) :
    Stretch S (.delaying pendingOrders) (.elapsed now) (query cfg S pendingOrders now).1
      (query cfg S pendingOrders now).2 := by
  obtain ⟨hresults, hwatched, hidle, hquiet⟩ := query_task cfg S pendingOrders now
  obtain ⟨pollState, hS⟩ := query_shared cfg S pendingOrders now
  rw [hS]
  refine stretch_silent rfl rfl rfl (.inl rfl) ?_ hwatched (.inl rfl) hidle (.inl ⟨rfl, rfl⟩) hquiet
  rw [hresults]
  intro r hr
  cases hr

theorem stretch_listing (pendingOrders : List PendingOrder) (openOrders : List OpenOrder) :
    Stretch S (.listing pendingOrders) (.openOrders openOrders)
      (poll S (unlisted pendingOrders openOrders) []).1
      (poll S (unlisted pendingOrders openOrders) []).2 := by
  obtain ⟨hresults, hwatched, hidle, hquiet⟩ := poll_task S (unlisted pendingOrders openOrders) []
  rw [poll_shared]
  refine stretch_silent rfl rfl rfl (.inl rfl) ?_ ?_ (.inl rfl) hidle (.inl ⟨rfl, rfl⟩) hquiet
  · intro r hr
    cases hresults r hr
  intro id hid
  rcases hwatched id hid with h | h
  · exact (List.filter_sublist.map _).mem h
  · cases h

theorem stretch_stating (cfg : PassConfig) (updates : List OrderStatusUpdate) (s : GitState)
    (hashedAt now : Timestamp) :
    Stretch S (.stating updates) (.state s hashedAt now)
      { S with ledger := (Git.start cfg.toPlatform S.ledger i (.sync updates s hashedAt now)).1 }
      (.git (Git.start cfg.toPlatform S.ledger i (.sync updates s hashedAt now)).2) := by
  simp only [Git.start]
  split
  · exact stretch_silent rfl rfl rfl (.inl rfl) (by simp [PassTask.results])
      (by simp [PassTask.watched]) (.inl rfl) rfl (.inl ⟨rfl, rfl⟩) trivial
  · exact stretch_silent rfl rfl rfl (.inr ⟨_, .synced rfl, rfl⟩) (by simp [PassTask.results])
      (by simp [PassTask.watched]) (.inl rfl) rfl (.inl ⟨rfl, rfl⟩) trivial

theorem stretch_spec (h : resume cfg S i k a = some (S', k')) :
    Stretch S k a S' k' := by
  unfold resume at h
  split at h
  · -- a call of the ledger
    obtain ⟨⟨L, t'⟩, hr, he⟩ := Option.map_eq_some_iff.mp h
    cases he
    exact stretch_git _ (Git.resume_spec hr)
  · obtain ⟨rfl, rfl⟩ := Prod.ext_iff.mp (Option.some.inj h)
    exact stretch_delaying cfg _ _
  · obtain ⟨rfl, rfl⟩ := Prod.ext_iff.mp (Option.some.inj h)
    exact stretch_listing _ _
  · rename_i o candidates updates
    obtain ⟨rfl, rfl⟩ := Prod.ext_iff.mp (Option.some.inj h)
    have hnone : Stretch S (.polling o candidates updates) (.order none)
        (poll S candidates (updates ++ [])).1 (poll S candidates (updates ++ [])).2 :=
      stretch_polling rfl (by simp)
    rwa [List.append_nil] at hnone
  · rename_i o candidates updates brokerOrder
    obtain ⟨rfl, rfl⟩ := Prod.ext_iff.mp (Option.some.inj h)
    refine stretch_polling rfl ?_
    intro u hu
    have hupdate : updateOf o brokerOrder = some u := Option.mem_toList.mp hu
    exact ⟨.polled hupdate, updateOf_orderId hupdate⟩
  · rename_i updates s hashedAt now
    obtain ⟨rfl, rfl⟩ := Prod.ext_iff.mp (Option.some.inj h)
    exact stretch_stating cfg updates s hashedAt now
  · cases h
    exact stretch_silent rfl rfl rfl (.inl rfl) (by simp [PassTask.results])
      (by simp [PassTask.watched]) (.inl rfl) rfl (.inl ⟨rfl, rfl⟩) trivial
  · obtain ⟨rfl, rfl⟩ := Prod.ext_iff.mp (Option.some.inj h)
    exact (walk_spec _ _ _ _).stretch rfl rfl
  · obtain ⟨⟨L, t'⟩, hr, he⟩ := Option.map_eq_some_iff.mp h
    cases Git.resume_spec hr with
    | failed ht => rcases ht with ht | ht <;> cases ht
    | settled =>
      obtain ⟨rfl, rfl⟩ := Prod.ext_iff.mp he
      exact (reconciled_spec _ _ _ _ _ _ _).stretch rfl rfl
  all_goals first
      | (obtain ⟨rfl, rfl⟩ := Prod.ext_iff.mp (Option.some.inj h)
         exact stretch_failed _ rfl rfl)
      | cases h

/-! ## The in-flight flag -/

/-- At most one push or reject of the account is in flight. -/
theorem passLock (cfg : PassConfig) : Lock (passProg cfg) Shared.inflight PassTask.writing where
  start := by
    intro S i c
    rcases (opening_spec cfg S i c).flag with ⟨hs, hw⟩ | ⟨hs, hw, hs'⟩
    · exact .inr ⟨hw, hs⟩
    · exact .inl ⟨hw, hs, hs'⟩
  idle := by
    intro S i k a S' k' hk h
    rcases (stretch_spec h).flag with ⟨hs, hw⟩ | ⟨hw, _⟩
    · exact .inr ⟨hw.trans hk, hs⟩
    · rw [hk] at hw
      cases hw
  owner := by
    intro S i k a S' k' hk hS h
    rcases (stretch_spec h).flag with ⟨hs, hw⟩ | ⟨_, hw, hs⟩
    · rw [hs, hS, hw, hk]
    · rw [hs, hw]

/-! ## What `getPositions` has read -/

def PassTask.ahead (cfg : PassConfig) (S : Shared) : PassTask → PassAnswer →
    Option (Walk × List Position)
  | .arriving positions seen, .arrived _ => some (⟨[], inFlightIds S, seen⟩, stamped cfg positions)
  | .reconciling _ w _ _ rest, .git .persisted _ => some (w, rest)
  | _, _ => none

inductive Reads (cfg : PassConfig) (S : Shared) (k : PassTask) (a : PassAnswer) (S' : Shared)
    (k' : PassTask) : Prop
  | apart (hk : k.reads = false) (hk' : k'.reads = false)
  | broken (hS : S' = S) (hk' : k'.reads = false)
  | looked {positions : List Position} (hk : k = .reading) (ha : a = .looked positions)
      (hS : S' = S) (hk' : k' = .arriving positions (filledIds S.orders))
  | walked {w : Walk} {positions : List Position} (h : k.ahead cfg S a = some (w, positions))
      (hw : Walked cfg S w positions S' k')

theorem poll_reads (S : Shared) (candidates : List PendingOrder)
    (updates : List OrderStatusUpdate) : (poll S candidates updates).2.reads = false := by
  cases candidates with
  | nil =>
    simp only [poll]
    split <;> rfl
  | cons o rest => rfl

theorem query_reads (cfg : PassConfig) (S : Shared) (pendingOrders : List PendingOrder)
    (now : Timestamp) : (query cfg S pendingOrders now).2.reads = false := by
  simp only [query]
  split
  · rfl
  · exact poll_reads _ _ _

theorem start_reads (cfg : PassConfig) (S : Shared) (i : Nat) (c : PassCall) :
    (start cfg S i c).2.reads = false := by
  cases c with
  | sync delayed now =>
    simp only [start, startSync]
    split
    · rfl
    split
    · rfl
    · exact query_reads _ _ _ _
  | _ => rfl

theorem reads_spec (h : resume cfg S i k a = some (S', k')) :
    Reads cfg S k a S' k' := by
  unfold resume at h
  split at h
  · obtain ⟨⟨L, t'⟩, hr, he⟩ := Option.map_eq_some_iff.mp h
    cases he
    exact .apart rfl rfl
  · obtain ⟨rfl, rfl⟩ := Prod.ext_iff.mp (Option.some.inj h)
    exact .apart rfl (query_reads _ _ _ _)
  · obtain ⟨rfl, rfl⟩ := Prod.ext_iff.mp (Option.some.inj h)
    exact .apart rfl (poll_reads _ _ _)
  · obtain ⟨rfl, rfl⟩ := Prod.ext_iff.mp (Option.some.inj h)
    exact .apart rfl (poll_reads _ _ _)
  · obtain ⟨rfl, rfl⟩ := Prod.ext_iff.mp (Option.some.inj h)
    exact .apart rfl (poll_reads _ _ _)
  · obtain ⟨rfl, rfl⟩ := Prod.ext_iff.mp (Option.some.inj h)
    exact .apart rfl rfl
  · cases h
    exact .looked rfl rfl rfl rfl
  · obtain ⟨rfl, rfl⟩ := Prod.ext_iff.mp (Option.some.inj h)
    exact .walked rfl (walk_spec _ _ _ _)
  · rename_i o w p aliceId rest answer now
    obtain ⟨⟨L, t'⟩, hr, he⟩ := Option.map_eq_some_iff.mp h
    obtain ⟨rfl, rfl⟩ := Prod.ext_iff.mp he
    cases answer with
    | persisted =>
      cases hr
      exact .walked rfl (reconciled_spec _ _ _ _ _ _ _)
    | threw text =>
      cases hr
      exact .broken rfl rfl
    | reply raw => cases hr
    | state s now => cases hr
  all_goals first
      | (obtain ⟨rfl, rfl⟩ := Prod.ext_iff.mp (Option.some.inj h)
         exact .broken rfl rfl)
      | cases h

end OpenAlice.Trading.Passes
