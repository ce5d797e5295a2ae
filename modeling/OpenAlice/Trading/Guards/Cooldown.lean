import OpenAlice.Data.Histories
import OpenAlice.Trading.Guards.Pipeline

/-!
# Cooldowns and dispatches

A `CooldownGuard` remembers the orders that it lets by, whatever becomes of them behind it.  Where no
guard behind it refuses an order that it lets by, and nothing before it refuses one that it would,
it refuses exactly those orders whose symbol was dispatched within the interval.

The invariant is that the guard remembers, for every symbol, the last order that was dispatched.
-/

namespace OpenAlice.Trading.Guards

open OpenAlice.Data

def Asked.isOrder (asked : Asked) : Bool := asked.operation matches .placeOrder ..

def Entry.isDispatch (entry : Entry) : Bool :=
  entry.asked.isOrder && decide (entry.verdict = .dispatched)

/-- An order of this symbol was dispatched less than the interval before. -/
def Cooling (minIntervalMs : ℚ) (history : List Entry) (asked : Asked) : Prop :=
  ∃ entry ∈ history, entry.isDispatch = true ∧ entry.asked.operation.symbol = asked.operation.symbol ∧
    (asked.now : ℚ) - entry.asked.now < minIntervalMs

def Verdict.refusedAt (place : Nat) : Verdict → Prop
  | .rejected refusal _ => refusal.place = place
  | _ => False

def Tracks (minIntervalMs : ℚ) (place : Nat) (history : List Entry) (entry : Entry) : Prop :=
  entry.verdict.refusedAt place ↔
    entry.asked.isOrder = true ∧ Cooling minIntervalMs history entry.asked

def BeforeAdmit {κ : Type} (env : GuardEnv κ) (place : Nat) (guards : List (Guard κ))
    (now : Timestamp) (ctx : GuardContext) : Prop :=
  (askGuards env now ctx 0 (guards.take place)).2 = none

def BehindAdmit {κ : Type} (env : GuardEnv κ) (place : Nat) (guards : List (Guard κ))
    (now : Timestamp) (ctx : GuardContext) : Prop :=
  (askGuards env now ctx (place + 1) (guards.drop (place + 1))).2 = none

structure Undisturbed {κ : Type} (env : GuardEnv κ) (minIntervalMs : ℚ) (place : Nat)
    (s : List (Guard κ) × List Entry) (asked : Asked) : Prop where
  reaches : asked.isOrder = true → Cooling minIntervalMs s.2 asked →
    ∃ positions account, asked.account = some (positions, account) ∧
      BeforeAdmit env place s.1 asked.now ⟨asked.operation, positions, account⟩
  passes : asked.isOrder = true → ¬ Cooling minIntervalMs s.2 asked →
    ∀ positions account, asked.account = some (positions, account) →
      BeforeAdmit env place s.1 asked.now ⟨asked.operation, positions, account⟩ →
      BehindAdmit env place s.1 asked.now ⟨asked.operation, positions, account⟩

/-! ## What one operation does -/

section Steps

variable {κ : Type} {env : GuardEnv κ} {guards : List (Guard κ)} {asked : Asked}
variable {minIntervalMs : ℚ} {last : List (String × Timestamp)} {place : Nat}

/-- What the guards make of an operation, seen from the cooldown at one place: it is not asked, it
refuses, or it lets by. -/
inductive Seen (env : GuardEnv κ) (minIntervalMs : ℚ) (guards : List (Guard κ))
    (last : List (String × Timestamp)) (place : Nat) (asked : Asked) :
    List (String × Timestamp) → Verdict → Prop
  | threw (haccount : asked.account = none) : Seen env minIntervalMs guards last place asked last .threw
  | before {refusal : Refusal} {error : String} {positions : List Position} {account : Risk.AccountInfo}
      (haccount : asked.account = some (positions, account)) (hlt : refusal.place < place)
      (hbefore : ¬ BeforeAdmit env place guards asked.now ⟨asked.operation, positions, account⟩) :
      Seen env minIntervalMs guards last place asked last (.rejected refusal error)
  | refused {error rejection : String} {lastTime : Timestamp} (horder : asked.isOrder = true)
      (hlast : last.lookup asked.operation.symbol = some lastTime)
      (helapsed : (asked.now : ℚ) - lastTime < minIntervalMs) :
      Seen env minIntervalMs guards last place asked last (.rejected ⟨place, rejection⟩ error)
  | other {verdict : Verdict} (horder : asked.isOrder = false)
      (hplace : ¬ verdict.refusedAt place) :
      Seen env minIntervalMs guards last place asked last verdict
  | passed {verdict : Verdict} {positions : List Position} {account : Risk.AccountInfo}
      (haccount : asked.account = some (positions, account)) (horder : asked.isOrder = true)
      (hlast : ∀ lastTime, last.lookup asked.operation.symbol = some lastTime →
        minIntervalMs ≤ (asked.now : ℚ) - lastTime)
      (hbefore : BeforeAdmit env place guards asked.now ⟨asked.operation, positions, account⟩)
      (hverdict : BehindAdmit env place guards asked.now ⟨asked.operation, positions, account⟩ →
        verdict = .dispatched) :
      Seen env minIntervalMs guards last place asked
        (setKey last asked.operation.symbol asked.now) verdict

/-- What the loop over the guards makes of the cooldown at a place. -/
inductive Passes (minIntervalMs : ℚ) (last : List (String × Timestamp)) (now : Timestamp)
    (ctx : GuardContext) (place : Nat) (before behind : Option Refusal) :
    List (String × Timestamp) → Option Refusal → Prop
  | before {refusal : Refusal} (hlt : refusal.place < place) (h : before = some refusal) :
      Passes minIntervalMs last now ctx place before behind last (some refusal)
  | refused {rejection : String}
      (h : (checkCooldown minIntervalMs last now ctx).2 = some rejection) :
      Passes minIntervalMs last now ctx place before behind
        (checkCooldown minIntervalMs last now ctx).1 (some ⟨place, rejection⟩)
  | passed (hbefore : before = none) (h : (checkCooldown minIntervalMs last now ctx).2 = none)
      (hplace : ∀ r ∈ behind, place < r.place) :
      Passes minIntervalMs last now ctx place before behind
        (checkCooldown minIntervalMs last now ctx).1 behind

theorem le_place_of_askGuards {now : Timestamp} {ctx : GuardContext} {k : Nat} {refusal : Refusal}
    (h : (askGuards env now ctx k guards).2 = some refusal) : k ≤ refusal.place := by
  induction guards generalizing k with
  | nil => cases h
  | cons guard rest ih =>
    rw [askGuards] at h
    split at h
    · cases h
      exact le_rfl
    · exact Nat.le_of_succ_le (ih h)

variable (env) in
theorem askGuards_passes (now : Timestamp) (ctx : GuardContext) (k : Nat)
    (h : guards[place]? = some (.cooldown minIntervalMs last)) :
    ∃ last', (askGuards env now ctx k guards).1[place]? = some (.cooldown minIntervalMs last') ∧
      Passes minIntervalMs last now ctx (k + place) (askGuards env now ctx k (guards.take place)).2
        (askGuards env now ctx (k + place + 1) (guards.drop (place + 1))).2 last'
        (askGuards env now ctx k guards).2 := by
  induction guards generalizing k place with
  | nil => cases h
  | cons guard rest ih =>
    cases place with
    | zero =>
      obtain rfl : guard = .cooldown minIntervalMs last := Option.some.inj h
      rw [askGuards]
      cases hcheck : (checkCooldown minIntervalMs last now ctx).2 with
      | some rejection =>
        simp only [Guard.check, hcheck]
        exact ⟨_, rfl, .refused hcheck⟩
      | none =>
        simp only [Guard.check, hcheck]
        refine ⟨_, rfl, .passed rfl hcheck fun r hr ↦ ?_⟩
        exact le_place_of_askGuards hr
    | succ place =>
      rw [List.take_succ_cons, List.drop_succ_cons, askGuards, askGuards]
      split
      · refine ⟨last, h, .before ?_ rfl⟩
        exact Nat.lt_add_of_pos_right (Nat.succ_pos place)
      obtain ⟨last', hget, hpasses⟩ := ih (k + 1) h
      refine ⟨last', hget, ?_⟩
      rw [Nat.add_right_comm] at hpasses
      exact hpasses

theorem checkCooldown_cases (minIntervalMs : ℚ) (last : List (String × Timestamp)) (now : Timestamp)
    (ctx : GuardContext) :
    let q := checkCooldown minIntervalMs last now ctx
    let isOrder : Bool := ctx.operation matches .placeOrder ..
    (isOrder = false ∧ q = (last, none)) ∨
      (isOrder = true ∧ q = (setKey last ctx.operation.symbol now, none) ∧
        ∀ lastTime, last.lookup ctx.operation.symbol = some lastTime →
          minIntervalMs ≤ (now : ℚ) - lastTime) ∨
      (isOrder = true ∧ q.1 = last ∧ (∃ rejection, q.2 = some rejection) ∧
        ∃ lastTime, last.lookup ctx.operation.symbol = some lastTime ∧
          (now : ℚ) - lastTime < minIntervalMs) := by
  obtain ⟨operation, positions, account⟩ := ctx
  cases operation with
  | placeOrder contract order tpsl =>
    right
    simp only [checkCooldown, true_and]
    cases hlast : last.lookup (Operation.placeOrder contract order tpsl).symbol with
    | none =>
      left
      exact ⟨rfl, fun lastTime h ↦ by cases h⟩
    | some lastTime =>
      by_cases helapsed : (now : ℚ) - lastTime < minIntervalMs
      · right
        simp only [helapsed, if_true]
        exact ⟨trivial, ⟨_, rfl⟩, lastTime, rfl, helapsed⟩
      left
      simp only [helapsed, if_false]
      refine ⟨trivial, fun time h ↦ ?_⟩
      cases h
      exact not_lt.mp helapsed
  | _ => exact .inl ⟨rfl, rfl⟩

variable (env asked) in
theorem guardPipeline_seen (h : guards[place]? = some (.cooldown minIntervalMs last)) :
    ∃ last', (guardPipeline env guards asked).1[place]? = some (.cooldown minIntervalMs last') ∧
      Seen env minIntervalMs guards last place asked last' (guardPipeline env guards asked).2 := by
  have hne : guards ≠ [] := by
    rintro rfl
    cases h
  rw [guardPipeline, if_neg hne]
  cases haccount : asked.account with
  | none => exact ⟨last, h, .threw haccount⟩
  | some read =>
    obtain ⟨positions, account⟩ := read
    obtain ⟨last', hget, hpasses⟩ :=
      askGuards_passes env asked.now ⟨asked.operation, positions, account⟩ 0 h
    rw [Nat.zero_add] at hpasses
    have hcases := checkCooldown_cases minIntervalMs last asked.now
      ⟨asked.operation, positions, account⟩
    dsimp only
    generalize askGuards env asked.now ⟨asked.operation, positions, account⟩ 0 guards = q
      at hget hpasses ⊢
    obtain ⟨guards', refusal⟩ := q
    refine ⟨last', ?_, ?_⟩
    · cases refusal <;> exact hget
    · cases hpasses with
      | before hlt hbefore =>
        refine .before haccount hlt fun hadmit ↦ ?_
        rw [BeforeAdmit, hbefore] at hadmit
        cases hadmit
      | refused hrejection =>
        rcases hcases with ⟨-, hq⟩ | ⟨-, hq, -⟩ | ⟨horder, hlast, -, lastTime, hlookup, helapsed⟩
        · rw [hq] at hrejection
          cases hrejection
        · rw [hq] at hrejection
          cases hrejection
        · rw [hlast]
          exact .refused horder hlookup helapsed
      | passed hbefore hnone hplace =>
        rcases hcases with ⟨horder, hq⟩ | ⟨horder, hq, hlast⟩ | ⟨-, -, ⟨rejection, hq⟩, -⟩
        · rw [hq]
          refine .other horder ?_
          split
          · exact id
          · rename_i r hr
            exact fun heq ↦ absurd (hplace r (Prod.mk.inj hr).2) (heq ▸ lt_irrefl r.place)
        · rw [hq]
          refine .passed haccount horder hlast hbefore fun hadmit ↦ ?_
          split
          · rfl
          · rename_i r hr
            exact absurd ((Prod.mk.inj hr).2.symm.trans hadmit) (Option.some_ne_none r)
        · rw [hq] at hnone
          cases hnone

end Steps

/-! ## Runs -/

section Runs

variable {κ : Type} {env : GuardEnv κ} {minIntervalMs : ℚ} {place : Nat}

/-- **What the cooldown remembers**: for every symbol the last order that was dispatched. -/
structure Remembers (last : List (String × Timestamp)) (history : List Entry) : Prop where
  /-- Nothing that was not dispatched. -/
  dispatched : ∀ symbol time, last.lookup symbol = some time →
    ∃ entry ∈ history, entry.isDispatch = true ∧ entry.asked.operation.symbol = symbol ∧
      entry.asked.now = time
  latest : ∀ entry ∈ history, entry.isDispatch = true →
    ∃ time, last.lookup entry.asked.operation.symbol = some time ∧ entry.asked.now ≤ time

theorem remembers_nil : Remembers [] [] where
  dispatched symbol time h := by cases h
  latest entry h := by cases h

variable {last last' : List (String × Timestamp)} {history : List Entry} {asked : Asked}
variable {verdict : Verdict} {guards : List (Guard κ)}

theorem Remembers.cooling_iff (h : Remembers last history) : Cooling minIntervalMs history asked ↔
      ∃ time, last.lookup asked.operation.symbol = some time ∧
        (asked.now : ℚ) - time < minIntervalMs := by
  constructor
  · rintro ⟨entry, hentry, hdispatch, hsymbol, helapsed⟩
    obtain ⟨time, hlookup, hle⟩ := h.latest entry hentry hdispatch
    refine ⟨time, hsymbol ▸ hlookup, lt_of_le_of_lt ?_ helapsed⟩
    exact sub_le_sub_left (Nat.cast_le.mpr hle) _
  rintro ⟨time, hlookup, helapsed⟩
  obtain ⟨entry, hentry, hdispatch, hsymbol, rfl⟩ := h.dispatched _ _ hlookup
  exact ⟨entry, hentry, hdispatch, hsymbol, helapsed⟩

theorem Remembers.concat (h : Remembers last history) {entry : Entry}
    (hentry : entry.isDispatch = false) : Remembers last (history ++ [entry]) where
  dispatched symbol time hlookup := by
    obtain ⟨e, he, hrest⟩ := h.dispatched symbol time hlookup
    exact ⟨e, List.mem_append_left _ he, hrest⟩
  latest e he hdispatch := by
    rcases List.mem_append.mp he with he | he
    · exact h.latest e he hdispatch
    · rw [List.mem_singleton.mp he, hentry] at hdispatch
      cases hdispatch

theorem Remembers.dispatch (h : Remembers last history) (horder : asked.isOrder = true)
    (hnow : ∀ entry ∈ history, entry.asked.now ≤ asked.now) :
    Remembers (setKey last asked.operation.symbol asked.now) (history ++ [⟨asked, .dispatched⟩]) where
  dispatched symbol time hlookup := by
    by_cases hsymbol : symbol = asked.operation.symbol
    · rw [hsymbol, lookup_setKey_self] at hlookup
      refine ⟨⟨asked, .dispatched⟩, List.mem_append_right _ List.mem_cons_self, ?_, hsymbol.symm,
        Option.some.inj hlookup⟩
      rw [Entry.isDispatch, horder]
      rfl
    · rw [lookup_setKey_of_ne hsymbol] at hlookup
      obtain ⟨e, he, hrest⟩ := h.dispatched symbol time hlookup
      exact ⟨e, List.mem_append_left _ he, hrest⟩
  latest e he hdispatch := by
    by_cases hsymbol : e.asked.operation.symbol = asked.operation.symbol
    · rw [hsymbol, lookup_setKey_self]
      refine ⟨asked.now, rfl, ?_⟩
      rcases List.mem_append.mp he with he | he
      · exact hnow e he
      · rw [List.mem_singleton.mp he]
    · rw [lookup_setKey_of_ne hsymbol]
      rcases List.mem_append.mp he with he | he
      · exact h.latest e he hdispatch
      · rw [List.mem_singleton.mp he] at hsymbol
        exact absurd rfl hsymbol

theorem Seen.tracks (h : Seen env minIntervalMs guards last place asked last' verdict)
    (hlast : Remembers last history) (hnow : ∀ entry ∈ history, entry.asked.now ≤ asked.now)
    (hok : Undisturbed env minIntervalMs place (guards, history) asked) :
    Remembers last' (history ++ [⟨asked, verdict⟩]) ∧
      Tracks minIntervalMs place history ⟨asked, verdict⟩ := by
  have hquiet : ∀ verdict : Verdict, verdict ≠ .dispatched →
      Entry.isDispatch ⟨asked, verdict⟩ = false := by
    intro verdict hne
    rw [Entry.isDispatch, decide_eq_false hne, Bool.and_false]
  cases h with
  | threw haccount =>
    refine ⟨hlast.concat (hquiet _ (by simp)), ⟨False.elim, ?_⟩⟩
    rintro ⟨horder, hcooling⟩
    obtain ⟨positions, account, hread, -⟩ := hok.reaches horder hcooling
    rw [haccount] at hread
    cases hread
  | before haccount hlt hbefore =>
    refine ⟨hlast.concat (hquiet _ (by simp)), ⟨fun heq ↦ absurd hlt (heq ▸ lt_irrefl _), ?_⟩⟩
    rintro ⟨horder, hcooling⟩
    obtain ⟨positions, account, hread, hadmit⟩ := hok.reaches horder hcooling
    rw [haccount] at hread
    cases hread
    exact absurd hadmit hbefore
  | refused horder hlookup helapsed =>
    refine ⟨hlast.concat (hquiet _ (by simp)), ⟨fun _ ↦ ⟨horder, ?_⟩, fun _ ↦ rfl⟩⟩
    exact hlast.cooling_iff.mpr ⟨_, hlookup, helapsed⟩
  | other horder hplace =>
    refine ⟨hlast.concat ?_, ⟨fun hrefused ↦ absurd hrefused hplace, ?_⟩⟩
    · rw [Entry.isDispatch, horder, Bool.false_and]
    rintro ⟨htrue, -⟩
    rw [horder] at htrue
    cases htrue
  | passed haccount horder hpassed hbefore hverdict =>
    have hnot : ¬ Cooling minIntervalMs history asked := by
      intro hcooling
      obtain ⟨time, hlookup, helapsed⟩ := hlast.cooling_iff.mp hcooling
      exact absurd helapsed (not_lt.mpr (hpassed time hlookup))
    have hdispatched : verdict = .dispatched :=
      hverdict (hok.passes horder hnot _ _ haccount hbefore)
    subst hdispatched
    exact ⟨hlast.dispatch horder hnow, ⟨False.elim, fun h ↦ absurd h.2 hnot⟩⟩

/-- What a run keeps: the cooldown is at its place and remembers what was dispatched, and it has
refused what was cooling. -/
structure Kept (env : GuardEnv κ) (minIntervalMs : ℚ) (place : Nat)
    (s : List (Guard κ) × List Entry) : Prop where
  cooldown : ∃ last, s.1[place]? = some (.cooldown minIntervalMs last) ∧ Remembers last s.2
  tracks : Along (Tracks minIntervalMs place) s.2

theorem pipelineRun_concat (guards : List (Guard κ)) (asked : List Asked) (a : Asked) :
    pipelineRun env guards (asked ++ [a]) = pipelineStep env (pipelineRun env guards asked) a := by
  rw [pipelineRun, List.foldl_append]
  rfl

variable (env) in
theorem asked_pipelineRun (guards : List (Guard κ)) (asked : List Asked) :
    (pipelineRun env guards asked).2.map Entry.asked = asked := by
  induction asked using List.reverseRecOn with
  | nil => rfl
  | append_singleton asked a ih =>
    rw [pipelineRun_concat, pipelineStep, List.map_append, ih]
    rfl

/-- **A cooldown tracks what is dispatched**: in every run in which the guards before it admit every
order that is cooling, and the guards behind it admit every other order that comes to it. -/
theorem cooldown_tracks {asked : List Asked}
    (hguard : guards[place]? = some (.cooldown minIntervalMs []))
    (htimes : asked.Pairwise fun a b ↦ a.now ≤ b.now)
    (hok : Along (fun before a ↦
      Undisturbed env minIntervalMs place (pipelineRun env guards before) a) asked) :
    Along (Tracks minIntervalMs place) (pipelineRun env guards asked).2 := by
  have hkept : Kept env minIntervalMs place (pipelineRun env guards asked) := by
    induction asked using List.reverseRecOn with
    | nil => exact ⟨⟨[], hguard, remembers_nil⟩, along_nil⟩
    | append_singleton asked a ih =>
      obtain ⟨hbefore, -, hlater⟩ := List.pairwise_append.mp htimes
      rw [along_concat] at hok
      rw [pipelineRun_concat, pipelineStep]
      obtain ⟨⟨last, hget, hlast⟩, htracks⟩ := ih hbefore hok.1
      obtain ⟨last', hget', hseen⟩ := guardPipeline_seen env a hget
      have hnow : ∀ entry ∈ (pipelineRun env guards asked).2, entry.asked.now ≤ a.now := by
        intro entry hentry
        have hmem : entry.asked ∈ asked := by
          rw [← asked_pipelineRun env guards asked]
          exact List.mem_map_of_mem hentry
        exact hlater _ hmem a List.mem_cons_self
      obtain ⟨hlast', htrack⟩ := hseen.tracks hlast hnow hok.2
      exact ⟨⟨last', hget', hlast'⟩, along_concat.mpr ⟨htracks, htrack⟩⟩
  exact hkept.tracks

def builtin : GuardEnv Unit where
  round := id
  toFixed1 _ := ""
  number _ := ""
  custom _ memory _ := (memory, none)

def orderAt (now : Timestamp) : Asked where
  operation := .placeOrder { symbol := "AAPL" } { orderType := some "MKT" } none
  now := now
  account := some ([], ⟨1000, none⟩)

theorem cooldown_tracks_twice :
    Along (Tracks 60000 1) (pipelineRun builtin [.symbolWhitelist ["AAPL"], .cooldown 60000 []]
      [orderAt 0, orderAt 1000]).2 := by
  refine cooldown_tracks rfl (by decide) ?_
  have hadmit : ∀ place last now, BeforeAdmit builtin 1
      [.symbolWhitelist ["AAPL"], .cooldown place last] now
      ⟨(orderAt now).operation, [], ⟨1000, none⟩⟩ := by
    intro place last now
    rfl
  have hpair : [orderAt 0, orderAt 1000] = ([] ++ [orderAt 0]) ++ [orderAt 1000] := rfl
  rw [hpair, along_concat, along_concat]
  refine ⟨⟨along_nil, ?_⟩, ?_⟩
  · refine ⟨fun _ _ ↦ ⟨[], ⟨1000, none⟩, rfl, hadmit _ _ _⟩, ?_⟩
    rintro - - positions account - -
    rfl
  refine ⟨fun _ _ ↦ ⟨[], ⟨1000, none⟩, rfl, hadmit _ _ _⟩, ?_⟩
  rintro - - positions account - -
  rfl

/-- **An order that a later guard refuses starts a cooldown.** -/
theorem refusal_starts_cooldown :
    ¬ ∀ (env : GuardEnv Unit) (guards : List (Guard Unit)) (place : Nat) (minIntervalMs : ℚ)
      (asked : List Asked), guards[place]? = some (.cooldown minIntervalMs []) →
        (asked.Pairwise fun a b ↦ a.now ≤ b.now) →
          Along (Tracks minIntervalMs place) (pipelineRun env guards asked).2 := by
  intro h
  have hrun : (pipelineRun builtin [.cooldown 60000 [], .symbolWhitelist ["BTC"]]
      [orderAt 0, orderAt 1000]).2 = [⟨orderAt 0, .rejected
        ⟨1, "Symbol AAPL is not in the allowed list"⟩
          "[guard:symbol-whitelist] Symbol AAPL is not in the allowed list"⟩,
        ⟨orderAt 1000, .rejected ⟨0, "Cooldown active for AAPL: 59s remaining"⟩
          "[guard:cooldown] Cooldown active for AAPL: 59s remaining"⟩] := by
    decide +kernel
  have htracks := h builtin [.cooldown 60000 [], .symbolWhitelist ["BTC"]] 0 60000
    [orderAt 0, orderAt 1000] rfl (by decide)
  rw [hrun] at htracks
  obtain ⟨-, entry, hentry, hdispatch, -⟩ := (htracks [_] _ [] rfl).mp rfl
  rw [List.mem_singleton.mp hentry] at hdispatch
  exact absurd hdispatch (by decide)

end Runs

end OpenAlice.Trading.Guards
