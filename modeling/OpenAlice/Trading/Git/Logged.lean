import OpenAlice.Trading.Git.Cases
import OpenAlice.Trading.Ledger.Orders

/-!
# What a step puts into the log

A step appends at most one commit, and `Logged` says with which operations and
results: a write appends what it staged with the results of its dispatches, which
carry no execution data; the other writers append what their caller handed them.
`reach_log` is the induction that goes with it: a property of logs that every
such append keeps holds of the log in every state reached.
-/

namespace OpenAlice.Trading.Git

open OpenAlice.Run TradingGit

/-! ## Results without execution data -/

def Quiet (results : List OperationResult) : Prop := ∀ r ∈ results, r.fill? = none

theorem quiet_nil : Quiet [] := by simp [Quiet]

theorem quiet_concat {results : List OperationResult} {r : OperationResult} (h : Quiet results)
    (hr : r.fill? = none) : Quiet (results ++ [r]) := by
  rw [Quiet, List.forall_mem_append, List.forall_mem_singleton]
  exact ⟨h, hr⟩

/-- The reply of a dispatch carries no execution data into the ledger. -/
theorem Answered.fill {op : Operation} {a : Answer} {r : OperationResult} (h : Answered op a r) :
    r.fill? = none := by
  cases h with
  | replied raw => rcases raw with _ | ⟨_ | _, _, _, _, _⟩ <;> rfl
  | threw text => rfl

theorem quiet_rejectResults (operations : List Operation) (reason : Option String) :
    Quiet (rejectResults operations reason) := by
  intro r hr
  obtain ⟨op, _, rfl⟩ := List.mem_map.mp hr
  rfl

/-- The results a write has collected carry no execution data. -/
def Task.Quiet : Task → Prop
  | .executing _ _ _ results => Git.Quiet results
  | .snapshotting p | .persisting p => Git.Quiet p.results
  | .recording _ | .done _ => True

def QuietTasks (W : GitWorld) : Prop := ∀ (i : Nat) (t : Task), W.tasks[i]? = some t → t.Quiet

/-! ## The commit of a step -/

variable {pf : Platform}

inductive Logged (W : GitWorld) : GitEvent → List Operation → List OperationResult → Prop
  /-- `recordReconcile`. -/
  | reconciled (p : ReconcileParams) (now : Timestamp) :
      Logged W (.call (.recordReconcile p now)) [p.operation] [p.result]
  /-- `recordObservedOrders`. -/
  | observed (os : List ObservedOrder) (s : GitState) (now : Timestamp) :
      Logged W (.call (.recordObservedOrders os s now)) (os.map ObservedOrder.operation)
        (os.map ObservedOrder.result)
  /-- `sync`. -/
  | synced (us : List OrderStatusUpdate) (s : GitState) (hashedAt now : Timestamp) :
      Logged W (.call (.sync us s hashedAt now)) [.syncOrders] (us.map syncRow)
  /-- A push or a reject, when `getGitState` answers. -/
  | written {i : Nat} {p : Pending} (s : GitState) (now : Timestamp)
      (hp : W.tasks[i]? = some (.snapshotting p)) (hq : Quiet p.results) :
      Logged W (.resume i (.state s now)) p.operations p.results

def Grows (W : GitWorld) (e : GitEvent) (commits : List GitCommit) : Prop :=
  commits = W.shared.git.commits ∨
    ∃ c : GitCommit, Logged W e c.operations c.results ∧ commits = W.shared.git.commits ++ [c]

theorem Started.quiet {L L' : Ledger} {i : Nat} {c : Call} {t : Task}
    (hs : Started pf L i c L' t) : t.Quiet := by
  cases hs with
  | pushed _ _ _ _ => exact quiet_nil
  | rejecting _ _ _ _ _ => exact quiet_rejectResults _ _
  | _ => trivial

theorem Resumed.quiet {L L' : Ledger} {i : Nat} {t t' : Task} {a : Answer}
    (hr : Resumed L i t a L' t') (h : t.Quiet) : t'.Quiet := by
  cases hr with
  | dispatched _ hr _ => exact quiet_concat h hr.fill
  | executed _ hr _ => exact quiet_concat h hr.fill
  | appended => exact h
  | _ => trivial

theorem Started.grows {W : GitWorld} {c : Call} {L : Ledger} {t : Task}
    (hs : Started pf W.shared W.tasks.length c L t) : Grows W (.call c) L.git.commits := by
  cases hs with
  | recorded hr =>
    right
    cases hr with
    | reconcile p now => exact ⟨_, .reconciled p now, rfl⟩
    | observed os s now => exact ⟨_, .observed os s now, rfl⟩
    | sync us s hashedAt now _ => exact ⟨_, .synced us s hashedAt now, rfl⟩
  | _ => exact .inl rfl

theorem Resumed.grows {W : GitWorld} {i : Nat} {t t' : Task} {a : Answer} {L : Ledger}
    (hi : W.tasks[i]? = some t) (hq : t.Quiet) (hr : Resumed W.shared i t a L t') :
    Grows W (.resume i a) L.git.commits := by
  cases hr with
  | appended => exact .inr ⟨_, .written _ _ hi hq, rfl⟩
  | _ => exact .inl rfl

/-- **What a step appends**, and that it leaves the tasks without execution
data. -/
theorem step_grows {W W' : GitWorld} {e : GitEvent} (h : QuietTasks W)
    (hst : (gitProg pf).step W e = some W') :
    QuietTasks W' ∧ Grows W e W'.shared.git.commits := by
  cases e with
  | call c =>
    cases Prog.step_call hst
    have hs := start_spec pf W.shared W.tasks.length c
    refine ⟨?_, hs.grows⟩
    intro i t ht
    rcases World.task_append ht with ht | ⟨_, rfl⟩
    · exact h i t ht
    · exact hs.quiet
  | resume i a =>
    obtain ⟨t, L', t', hi, hr, rfl⟩ := Prog.step_resume hst
    have hs := resume_spec hr
    refine ⟨?_, hs.grows hi (h i t hi)⟩
    intro j k hk
    rcases World.task_set hk with ⟨_, rfl⟩ | ⟨_, hk⟩
    · exact hs.quiet (h i t hi)
    · exact h j k hk

theorem reach_log {ok : GitWorld → GitEvent → Prop} {I : List GitCommit → Prop} {g : TradingGit}
    {W : GitWorld} (h : Reach (gitProg pf).step ok (GitWorld.initial g) W) (h₀ : I g.commits)
    (hstep : ∀ (V : GitWorld) (e : GitEvent) (c : GitCommit), ok V e →
      Logged V e c.operations c.results → I V.shared.git.commits →
      I (V.shared.git.commits ++ [c])) : I W.shared.git.commits := by
  have hI := h.invariant (I := fun V ↦ QuietTasks V ∧ I V.shared.git.commits)
    ⟨fun i t ht ↦ by simp [GitWorld.initial] at ht, h₀⟩ ?_
  · exact hI.2
  intro V e V' ⟨hq, hV⟩ hok hst
  obtain ⟨hq', hg | ⟨c, hc, hg⟩⟩ := step_grows hq hst
  · exact ⟨hq', hg ▸ hV⟩
  · exact ⟨hq', hg ▸ hstep V e c hok hc hV⟩

/-! ## Runs to evaluate -/

def constPlatform : Platform where
  generateCommitHash _ := "00000000"
  toFixed d := toString d

def sampleContract : Contract := { aliceId := some "acct|AAPL", symbol := "AAPL" }

def samplePush (legs : List PlaceOrderLeg) : List GitEvent :=
  [.call (.add (.placeOrder sampleContract { action := some "BUY" } none)),
    .call (.commit "buy" 1), .call (.push "00000000"),
    .resume 2 (.reply (.object true none (some "1") (some { status := "Submitted" }) legs)),
    .resume 2 (.state {} 2), .resume 2 .persisted]

def sampleUpdate (id : String) (status : OperationStatus) (qty price : Option Decimal) :
    OrderStatusUpdate where
  orderId := id
  symbol := "AAPL"
  currentStatus := status
  filledQty := qty
  filledPrice := price

end OpenAlice.Trading.Git
