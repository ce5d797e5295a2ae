import OpenAlice.Trading.Risk.Controller

/-!
# What a stretch of a call of the controller can do

`Opens` and `Resumes` list what the first and the later stretches can do to the
controller and its history, `opens_spec` and `resumes_spec` say that the lists are
complete.
-/

namespace OpenAlice.Trading.Risk

open OpenAlice.Run

variable {cfg : RiskConfig} {S S' : Shared}

def newDay (S : Shared) : PersistedState :=
  { day := dayOf S.clock, paused := S.state.paused, pauseReason := S.state.pauseReason }

theorem rollDay_eq (S : Shared) :
    rollDay S.state S.clock = if S.state.day = dayOf S.clock then none else some (newDay S) := rfl

def Pauses (cfg : RiskConfig) (S : Shared) : RiskCall → Prop
  | .pause _ => True
  | .recordFailure _ => trips cfg S = true
  | _ => False

/-- Everything a first stretch can do. -/
inductive Opens (cfg : RiskConfig) (S : Shared) : RiskCall → Shared → RiskTask → Prop
  /-- A check on another day. -/
  | rolls {op : Operation} (hday : S.state.day ≠ dayOf S.clock) :
      Opens cfg S (.check op) { S with state := newDay S } (.mkdir (.gate op))
  | waits {op : Operation} (hday : S.state.day = dayOf S.clock) :
      Opens cfg S (.check op) S (.rolled op)
  | pauses {c : RiskCall} {n : Nat} {reason : Option String} (hc : Pauses cfg S c) :
      Opens cfg S c
        { S with
          state := { S.state with consecutiveErrors := n, paused := true, pauseReason := reason }
          history := S.history ++ [.paused] } (.mkdir .settle)
  | resets :
      Opens cfg S .resetPause
        { S with
          state := { S.state with consecutiveErrors := 0, paused := false, pauseReason := none } }
        (.mkdir .reset)
  | counts {c : RiskCall} {n : Nat} {k : RiskTask} (hk : k = .mkdir .settle ∨ k = .settled none)
      (hc : ∀ op, c ≠ .check op) :
      Opens cfg S c { S with state := { S.state with consecutiveErrors := n } } k

theorem opens_spec (cfg : RiskConfig) (S : Shared) (i : Nat) (c : RiskCall) :
    Opens cfg S c (start cfg S i c).1 (start cfg S i c).2 := by
  cases c with
  | check op =>
    simp only [start, rollDay_eq]
    split
    · rename_i state hstate
      split at hstate
      · cases hstate
      rename_i hday
      cases hstate
      exact .rolls hday
    · rename_i hstate
      split at hstate
      · rename_i hday
        exact .waits hday
      · cases hstate
  | pause reason => exact .pauses trivial
  | resetPause => exact .resets
  | recordSuccess op =>
    have hsame : Opens cfg S (.recordSuccess op)
        { S with state := { S.state with consecutiveErrors := S.state.consecutiveErrors } }
        (.settled none) := .counts (.inr rfl) (by simp)
    cases op with
    | placeOrder contract order tpsl => exact .counts (.inl rfl) (by simp)
    | closePosition contract quantity => exact .counts (.inl rfl) (by simp)
    | _ => exact hsame
  | recordFailure message =>
    simp only [start]
    split
    · rename_i htrips
      exact .pauses htrips
    · exact .counts (.inl rfl) (by simp)

/-- The rest of a check behind its `rollDay`. -/
inductive Passes (S : Shared) : RiskTask → Prop
  | settled {refusal : Option Refusal} : Passes S (.settled refusal)
  /-- The order is judged. -/
  | goes {contract : Contract} {order : Order} (hpaused : S.state.paused = false) :
      Passes S (.reading contract order)

theorem pass_spec (cfg : RiskConfig) (S : Shared) (op : Operation) :
    (pass cfg S op).1 = S ∧ Passes S (pass cfg S op).2 := by
  unfold pass
  split
  · exact ⟨rfl, .settled⟩
  · exact ⟨rfl, .settled⟩
  · rename_i contract order hgate
    refine ⟨rfl, .goes ?_⟩
    unfold gate at hgate
    split at hgate
    · cases hgate
    · cases hgate
    · split at hgate
      · cases hgate
      · rename_i hpaused
        simpa using hpaused

/-- Everything a later stretch can do. -/
inductive Resumes (cfg : RiskConfig) (S : Shared) :
    RiskTask → RiskAnswer → Shared → RiskTask → Prop
  | loads : Resumes cfg S .loading .read (loaded S).1 (loaded S).2
  | passes {op : Operation} {k : RiskTask} (hk : Passes S k) : Resumes cfg S (.rolled op) .resumed S k
  /-- The same, behind the `persist` of another day. -/
  | passesLater {content : PersistedState} {op : Operation} {k : RiskTask} (hk : Passes S k) :
      Resumes cfg S (.writing content (.gate op)) .wrote { S with disk := some content } k
  /-- A check is refused; it may have fixed the opening values, and counted the slots. -/
  | denies {contract : Contract} {order : Order} {a : RiskAnswer} {equity realized : Option Decimal}
      {notes : List Note} {r : Refusal}
      (hnotes : notes = [] ∨ notes = [.counted S.clock S.state.orderTimestamps] ∧
        ∃ account positions quote, a = .market account positions quote) :
      Resumes cfg S (.reading contract order) a
        { S with
          state := { S.state with openingNetLiquidation := equity, openingRealizedPnL := realized }
          history := S.history ++ notes } (.settled (some r))
  | admits {contract : Contract} {order : Order} {account : AccountInfo} {positions : List Position}
      {quote : Quote} {equity realized : Option Decimal}
      (hhour : (lastHour S.clock S.state.orderTimestamps).length < cfg.policy.maxOrdersPerHour)
      (hday : S.state.orderTimestamps.length < cfg.policy.maxOrdersPerDay) :
      Resumes cfg S (.reading contract order) (.market account positions quote)
        { S with
          state := { S.state with
            openingNetLiquidation := equity, openingRealizedPnL := realized
            orderTimestamps := S.state.orderTimestamps ++ [S.clock] }
          history := S.history ++ [.counted S.clock S.state.orderTimestamps, .admitted S.clock] }
        (.mkdir .settle)
  | makes {k : After} : Resumes cfg S (.mkdir k) .made S (.writing S.state k)
  | resumes {content : PersistedState} :
      Resumes cfg S (.writing content .reset) .wrote
        { S with disk := some content, history := S.history ++ [.resumed] } (.settled none)
  | writes {content : PersistedState} :
      Resumes cfg S (.writing content .settle) .wrote { S with disk := some content } (.settled none)
  | fails {k : RiskTask} {text : String} (hk : (∃ k', k = .mkdir k') ∨ ∃ content k', k = .writing content k') :
      Resumes cfg S k (.threw text) S (.settled (some (.failed text)))

theorem Resumes.refused (contract : Contract) (order : Order) (a : RiskAnswer)
    (equity realized : Option Decimal) (r : Refusal) :
    Resumes cfg S (.reading contract order) a
      { S with
        state := { S.state with openingNetLiquidation := equity, openingRealizedPnL := realized } }
      (.settled (some r)) := by
  have h := @Resumes.denies cfg S contract order a equity realized [] r (.inl rfl)
  rwa [List.append_nil] at h

theorem judge_spec (cfg : RiskConfig) (S : Shared) (contract : Contract) (order : Order)
    (account : AccountInfo) (positions : List Position) (quote : Quote) :
    Resumes cfg S (.reading contract order) (.market account positions quote)
      (judge cfg S contract order account positions quote).1
      (judge cfg S contract order account positions quote).2 := by
  unfold judge
  split
  · exact .refused contract order _ S.state.openingNetLiquidation S.state.openingRealizedPnL _
  simp only [ensureDailyLoss]
  split
  · exact .refused contract order _ _ _ _
  simp only [reserve]
  split
  · exact .denies (.inr ⟨rfl, _, _, _, rfl⟩)
  rename_i hhour
  split
  · exact .denies (.inr ⟨rfl, _, _, _, rfl⟩)
  rename_i hday
  rw [List.append_assoc]
  exact .admits (Nat.lt_of_not_le hhour) (Nat.lt_of_not_le hday)

theorem resumes_spec {i : Nat} {k k' : RiskTask} {a : RiskAnswer}
    (h : resume cfg S i k a = some (S', k')) : Resumes cfg S k a S' k' := by
  unfold resume at h
  split at h
  · obtain ⟨rfl, rfl⟩ := Prod.ext_iff.mp (Option.some.inj h)
    exact .loads
  · rename_i op
    obtain ⟨rfl, rfl⟩ := Prod.ext_iff.mp (Option.some.inj h)
    obtain ⟨hS, hk⟩ := pass_spec cfg S op
    rw [hS]
    exact .passes hk
  · obtain ⟨rfl, rfl⟩ := Prod.ext_iff.mp (Option.some.inj h)
    exact judge_spec cfg S _ _ _ _ _
  · cases h
    exact .refused _ _ _ S.state.openingNetLiquidation S.state.openingRealizedPnL _
  · cases h
    exact .makes
  · rename_i content k
    cases k with
    | gate op =>
      obtain ⟨rfl, rfl⟩ := Prod.ext_iff.mp (Option.some.inj h)
      obtain ⟨hS, hk⟩ := pass_spec cfg { S with disk := some content } op
      simp only [persisted]
      rw [hS]
      refine .passesLater ?_
      generalize (pass cfg { S with disk := some content } op).2 = k₁ at hk
      cases hk with
      | settled => exact .settled
      | goes hpaused => exact .goes hpaused
    | reset =>
      cases h
      exact .resumes
    | settle =>
      cases h
      exact .writes
  · cases h
    exact .fails (.inl ⟨_, rfl⟩)
  · cases h
    exact .fails (.inr ⟨_, _, rfl⟩)
  · cases h

end OpenAlice.Trading.Risk
