import OpenAlice.Trading.Account.RiskEnvelope
import OpenAlice.Trading.Risk.Cases

/-!
# The circuit breaker over automated pushes

`push` of `UnifiedTradingAccount` next to its `AutoTradingRiskController`.  An automated push that
comes back with rejected operations calls `recordFailure`, which counts and pauses at the limit.
An automated push that comes back without one calls nothing: `recordSuccess`, which would start the
count anew, has no caller.  So the failures that are counted need not be consecutive ones.

The two programs run side by side.  The controller's other calls come and are answered at any time,
the checks of the dispatcher among them; `recordFailure` is called by the push alone.

`outcomes` and `tripped` are read by no step.
-/

namespace OpenAlice.Trading.Breaker

open OpenAlice.Run OpenAlice.Trading.Git OpenAlice.Trading.Push OpenAlice.Trading.Risk

/-! ## The machine -/

structure BreakerWorld where
  account : PushWorld
  risk : RiskWorld
  /-- Of the automated pushes since the last reset or day rollover: whether they had a rejected
  operation. -/
  outcomes : List Bool
  /-- The outcomes at every time the breaker paused. -/
  tripped : List (List Bool) := []

inductive BreakerEvent where
  | push (e : PushEvent)
  | risk (now : Timestamp) (e : Event RiskCall RiskAnswer)

/-- The result with which an automated push leaves its `try`. -/
def leaving (W : PushWorld) : PushEvent → Option PushResult
  | .resume i .settled =>
    match W.tasks[i]? with
    | some ⟨true, .settling (.pushed r)⟩ => some r
    | _ => none
  | _ => none

/-- The message of the error that `recordFailure` is given. -/
def failureText (r : PushResult) : String :=
  "; ".intercalate (r.rejected.map fun item ↦ item.error.getD item.action.toText)

def own : Event RiskCall RiskAnswer → Bool
  | .call (.recordSuccess _) | .call (.recordFailure _) => false
  | _ => true

variable (cfg : PushConfig) (rcfg : RiskConfig)

def comesBack (W : BreakerWorld) (account : PushWorld) (r : PushResult) : BreakerWorld :=
  let outcomes := W.outcomes ++ [!r.rejected.isEmpty]
  if r.rejected.isEmpty then { W with account, outcomes }
  else
    let q := Risk.start rcfg W.risk.shared W.risk.tasks.length (.recordFailure (failureText r))
    { account
      risk := ⟨q.1, W.risk.tasks ++ [q.2]⟩
      outcomes
      tripped :=
        if q.1.history = W.risk.shared.history then W.tripped else W.tripped ++ [outcomes] }

def breakerStep (W : BreakerWorld) : BreakerEvent → Option BreakerWorld
  | .push e =>
    ((pushProg cfg).step W.account e).map fun account ↦
      match leaving W.account e with
      | none => { W with account }
      | some r => comesBack rcfg W account r
  | .risk now e =>
    if own e then
      (riskStep rcfg W.risk (.run now e)).map fun risk ↦
        { W with
          risk
          outcomes :=
            if e = .call .resetPause ∨ risk.shared.state.day ≠ W.risk.shared.state.day then []
            else W.outcomes }
    else none

/-- An account and a controller that has been loaded: its errors are those of the last pushes. -/
def BreakerWorld.initial (g : TradingGit) (state : PersistedState) (clock : Timestamp) :
    BreakerWorld where
  account := .initial g
  risk := ⟨{ state, clock }, []⟩
  outcomes := List.replicate state.consecutiveErrors true

/-! ## What should hold -/

/-- The last pushes all had a rejected operation, and there were so many. -/
def LastFailed (limit : Nat) (outcomes : List Bool) : Prop :=
  limit ≤ outcomes.length ∧ ∀ failed ∈ outcomes.reverse.take limit, failed = true

/-- **No success is passed over**: an automated push without a rejected operation comes back only
while no error is counted. -/
def successStep (W : BreakerWorld) : BreakerEvent → Prop
  | .push e => ∀ r ∈ leaving W.account e, r.rejected = [] →
      W.risk.shared.state.consecutiveErrors = 0 ∨ rcfg.policy.pauseAfterConsecutiveErrors ≤ 1
  | .risk .. => True

instance (W : BreakerWorld) : (e : BreakerEvent) → Decidable (successStep rcfg W e)
  | .push e => inferInstanceAs (Decidable (∀ r ∈ leaving W.account e, r.rejected = [] →
      W.risk.shared.state.consecutiveErrors = 0 ∨ rcfg.policy.pauseAfterConsecutiveErrors ≤ 1))
  | .risk .. => inferInstanceAs (Decidable True)

/-! ## Counting -/

def failures (outcomes : List Bool) : Nat := (outcomes.reverse.takeWhile id).length

theorem failures_concat_true (outcomes : List Bool) :
    failures (outcomes ++ [true]) = failures outcomes + 1 := by
  rw [failures, List.reverse_append, List.reverse_singleton, List.singleton_append,
    List.takeWhile_cons_of_pos rfl, List.length_cons, failures]

theorem failures_replicate (n : Nat) : failures (List.replicate n true) = n := by
  rw [failures, List.reverse_replicate, List.takeWhile_replicate, id, if_pos rfl,
    List.length_replicate]

theorem lastFailed_of_le {limit : Nat} {outcomes : List Bool} (h : limit ≤ failures outcomes) :
    LastFailed limit outcomes := by
  have hprefix : outcomes.reverse.takeWhile id <+: outcomes.reverse := List.takeWhile_prefix id
  obtain ⟨rest, hrest⟩ := hprefix
  have htake : outcomes.reverse.take limit = (outcomes.reverse.takeWhile id).take limit := by
    conv_lhs => rw [← hrest]
    exact List.take_append_of_le_length h
  constructor
  · have hlength := congrArg List.length hrest
    rw [List.length_append, List.length_reverse] at hlength
    rw [failures] at h
    omega
  intro failed hfailed
  rw [htake] at hfailed
  exact List.all_eq_true.mp List.all_takeWhile failed (List.mem_of_mem_take hfailed)

variable {cfg rcfg} {W W' : BreakerWorld}

/-- What the controller's own calls do to its count. -/
structure Lowers (e : Event RiskCall RiskAnswer) (R R' : RiskWorld) : Prop where
  count : R'.shared.state.consecutiveErrors ≤ R.shared.state.consecutiveErrors
  restarts : e = .call .resetPause ∨ R'.shared.state.day ≠ R.shared.state.day →
    R'.shared.state.consecutiveErrors = 0
  loading : RiskTask.loading ∉ R'.tasks

theorem Lowers.same {e : Event RiskCall RiskAnswer} {R R' : RiskWorld} (he : e ≠ .call .resetPause)
    (hcount : R'.shared.state.consecutiveErrors = R.shared.state.consecutiveErrors)
    (hday : R'.shared.state.day = R.shared.state.day) (hloading : RiskTask.loading ∉ R'.tasks) :
    Lowers e R R' :=
  ⟨hcount.le, fun h ↦ (h.elim he fun hne ↦ hne hday).elim, hloading⟩

theorem loading_notMem_concat {tasks : List RiskTask} {task : RiskTask}
    (h : RiskTask.loading ∉ tasks) (htask : task ≠ .loading) :
    RiskTask.loading ∉ tasks ++ [task] := by
  intro hmem
  rcases List.mem_append.mp hmem with hmem | hmem
  · exact h hmem
  · exact htask (List.mem_singleton.mp hmem).symm

/-- **No call of the controller but `recordFailure`** counts up. -/
theorem lowers_of_riskStep {now : Timestamp} {e : Event RiskCall RiskAnswer} {R R' : RiskWorld}
    (hown : own e = true) (hloading : RiskTask.loading ∉ R.tasks)
    (hstep : riskStep rcfg R (.run now e) = some R') : Lowers e R R' := by
  rw [riskStep] at hstep
  split_ifs at hstep
  cases e with
  | call c =>
    cases Prog.step_call hstep
    cases c with
    | recordSuccess op => cases hown
    | recordFailure message => cases hown
    | pause reason =>
      exact .same (by rintro ⟨⟩) rfl rfl (loading_notMem_concat hloading (by rintro ⟨⟩))
    | resetPause =>
      exact ⟨Nat.zero_le _, fun _ ↦ rfl, loading_notMem_concat hloading (by rintro ⟨⟩)⟩
    | check op =>
      simp only [riskProg, Risk.start, tick]
      cases hroll : rollDay R.shared.state now with
      | none =>
        exact .same (by rintro ⟨⟩) rfl rfl (loading_notMem_concat hloading (by rintro ⟨⟩))
      | some state =>
        rw [rollDay] at hroll
        split_ifs at hroll
        cases hroll
        exact ⟨Nat.zero_le _, fun _ ↦ rfl, loading_notMem_concat hloading (by rintro ⟨⟩)⟩
  | resume i a =>
    obtain ⟨task, S', task', hi, hresume, rfl⟩ := Prog.step_resume hstep
    have hspec := resumes_spec (i := i) hresume
    have htasks : ∀ task', task' ≠ .loading → RiskTask.loading ∉ R.tasks.set i task' := by
      intro task' hne hmem
      rcases List.mem_or_eq_of_mem_set hmem with hmem | heq
      · exact hloading hmem
      · exact hne heq.symm
    have hne : (Event.resume i a : Event RiskCall RiskAnswer) ≠ .call .resetPause := by rintro ⟨⟩
    cases hspec with
    | loads => exact absurd (List.mem_of_getElem? hi) hloading
    | passes hk =>
      refine .same hne rfl rfl (htasks _ ?_)
      cases hk <;> rintro ⟨⟩
    | passesLater hk =>
      refine .same hne rfl rfl (htasks _ ?_)
      cases hk <;> rintro ⟨⟩
    | denies _ => exact .same hne rfl rfl (htasks _ (by rintro ⟨⟩))
    | admits _ _ => exact .same hne rfl rfl (htasks _ (by rintro ⟨⟩))
    | makes => exact .same hne rfl rfl (htasks _ (by rintro ⟨⟩))
    | resumes => exact .same hne rfl rfl (htasks _ (by rintro ⟨⟩))
    | writes => exact .same hne rfl rfl (htasks _ (by rintro ⟨⟩))
    | fails _ => exact .same hne rfl rfl (htasks _ (by rintro ⟨⟩))

/-! ## Every run -/

/-- **The invariant of the breaker**: no more errors are counted than there were failures since the
last success. -/
structure BreakerSound (rcfg : RiskConfig) (W : BreakerWorld) : Prop where
  count : rcfg.policy.pauseAfterConsecutiveErrors ≤ 1 ∨
    W.risk.shared.state.consecutiveErrors ≤ failures W.outcomes
  tripped : ∀ outcomes ∈ W.tripped, LastFailed rcfg.policy.pauseAfterConsecutiveErrors outcomes
  loading : RiskTask.loading ∉ W.risk.tasks

theorem BreakerSound.comesBack (h : BreakerSound rcfg W) (account : PushWorld) {r : PushResult}
    (hsuccess : r.rejected = [] → W.risk.shared.state.consecutiveErrors = 0 ∨
      rcfg.policy.pauseAfterConsecutiveErrors ≤ 1) :
    BreakerSound rcfg (comesBack rcfg W account r) := by
  rw [Breaker.comesBack]
  split_ifs with hnone
  · refine ⟨?_, h.tripped, h.loading⟩
    rcases hsuccess (List.isEmpty_iff.mp hnone) with hzero | hone
    · exact .inr (hzero ▸ Nat.zero_le _)
    · exact .inl hone
  rw [Bool.not_eq_true] at hnone
  simp only [hnone, Bool.not_false, Risk.start]
  have hgrown : rcfg.policy.pauseAfterConsecutiveErrors ≤ 1 ∨
      W.risk.shared.state.consecutiveErrors + 1 ≤ failures (W.outcomes ++ [true]) := by
    rw [failures_concat_true]
    exact h.count.imp_right Nat.succ_le_succ
  by_cases htrips : trips rcfg W.risk.shared = true
  · -- the breaker pauses
    have hlimit : rcfg.policy.pauseAfterConsecutiveErrors ≤ failures (W.outcomes ++ [true]) := by
      rcases hgrown with hone | hgrown
      · rw [failures_concat_true]
        omega
      · exact (of_decide_eq_true htrips).trans hgrown
    simp only [htrips, if_true]
    refine ⟨hgrown, fun outcomes houtcomes ↦ ?_, loading_notMem_concat h.loading (by rintro ⟨⟩)⟩
    simp only at houtcomes
    split at houtcomes
    · exact h.tripped outcomes houtcomes
    rcases List.mem_append.mp houtcomes with houtcomes | houtcomes
    · exact h.tripped outcomes houtcomes
    · rw [List.mem_singleton.mp houtcomes]
      exact lastFailed_of_le hlimit
  · simp only [htrips, Bool.false_eq_true, if_false, if_true]
    exact ⟨hgrown, h.tripped, loading_notMem_concat h.loading (by rintro ⟨⟩)⟩

theorem BreakerSound.step (h : BreakerSound rcfg W) {e : BreakerEvent}
    (hsuccess : successStep rcfg W e) (hstep : breakerStep cfg rcfg W e = some W') :
    BreakerSound rcfg W' := by
  cases e with
  | push e =>
    obtain ⟨account, -, hW⟩ := Option.map_eq_some_iff.mp hstep
    cases hleaving : leaving W.account e with
    | none =>
      rw [hleaving] at hW
      cases hW
      exact ⟨h.count, h.tripped, h.loading⟩
    | some r =>
      rw [hleaving] at hW
      cases hW
      exact h.comesBack account (hsuccess r hleaving)
  | risk now e =>
    rw [breakerStep] at hstep
    split_ifs at hstep with hown
    obtain ⟨risk, hrisk, rfl⟩ := Option.map_eq_some_iff.mp hstep
    have hlowers := lowers_of_riskStep hown h.loading hrisk
    refine ⟨?_, h.tripped, hlowers.loading⟩
    simp only
    split_ifs with hrestarts
    · exact .inr (hlowers.restarts hrestarts ▸ Nat.zero_le _)
    · exact h.count.imp_right hlowers.count.trans

/-- **The breaker pauses for consecutive failures**, in every run in which no success is passed
over. -/
theorem breaker_counts (cfg : PushConfig) (rcfg : RiskConfig) {g : TradingGit}
    {state : PersistedState} {clock : Timestamp}
    (h : Reach (breakerStep cfg rcfg) (successStep rcfg) (.initial g state clock) W) :
    ∀ outcomes ∈ W.tripped, LastFailed rcfg.policy.pauseAfterConsecutiveErrors outcomes := by
  have hsound : BreakerSound rcfg W := by
    refine h.invariant ⟨.inr ?_, ?_, ?_⟩ fun _ _ _ hW hok hstep ↦ hW.step hok hstep
    · exact (failures_replicate state.consecutiveErrors).ge
    · rintro outcomes ⟨⟩
    · rintro ⟨⟩
  exact hsound.tripped

/-! ## Three pushes -/

def twoErrors : RiskConfig where
  policy :=
    { maxOrderNotional := 1000, maxSymbolExposurePercent := 50, maxDailyLoss := 100
      maxOrdersPerHour := 10, maxOrdersPerDay := 50, maxSlippageBps := 100, maxQuoteAgeMs := 5000
      allowedAliceIds := ["acct|AAPL"], pauseAfterConsecutiveErrors := 2 }
  round := id
  getNativeKey contract := contract.symbol

def closeAll : Operation := .closePosition { aliceId := some "acct|AAPL", symbol := "AAPL" } none

def closingPush (i j : Nat) (reply : RawReply) : List BreakerEvent := [
  .push (.call (.ledger ⟨.add closeAll, by simp⟩)),
  .push (.call (.ledger ⟨.commit "close" 1, by simp⟩)),
  .push (.call (.push "0a1b2c3d" true)), .push (.resume i (.stop false)),
  .risk 0 (.call (.check closeAll)), .risk 0 (.resume j .resumed), .push (.resume i .settled),
  .push (.resume i (.git (.reply reply))), .push (.resume i (.git (.state {} 2))),
  .push (.resume i (.git .persisted)), .push (.resume i .settled)]

def refused : RawReply := .object false (some "rejected by venue") none none []

def taken : RawReply := .object true none (some "1") (some { status := "Submitted" }) []

def noErrors : BreakerWorld := .initial {} { day := 0 } 0

def refusedTwice : List BreakerEvent := closingPush 2 0 refused ++ closingPush 5 2 refused

/-- Two pushes are refused, and the breaker pauses. -/
theorem breaker_counts_twice : ∃ W : BreakerWorld, W.tripped = [[true, true]] ∧
    ∀ outcomes ∈ W.tripped, LastFailed 2 outcomes := by
  have hrun : Reach (breakerStep paperConfig twoErrors) (successStep twoErrors) noErrors _ :=
    .of_execOk (show exec _ _ refusedTwice = _ from rfl) (by decide)
  exact ⟨_, rfl, breaker_counts paperConfig twoErrors hrun⟩

/-- **The breaker pauses behind a success**: one push is refused, one is taken, one is refused. -/
theorem success_passed_over : ¬ ∀ (cfg : PushConfig) (rcfg : RiskConfig) (W : BreakerWorld),
    Reach (breakerStep cfg rcfg) anyStep noErrors W →
      ∀ outcomes ∈ W.tripped, LastFailed rcfg.policy.pauseAfterConsecutiveErrors outcomes := by
  intro hall
  have hrun : Reach (breakerStep paperConfig twoErrors) anyStep noErrors _ :=
    .of_exec (closingPush 2 0 refused ++ closingPush 5 2 taken ++ closingPush 8 3 refused) rfl
  have hfailed := (hall paperConfig twoErrors _ hrun [true, false, true] (.head _)).2 false
  exact absurd (hfailed (by decide)) Bool.false_ne_true

end OpenAlice.Trading.Breaker
