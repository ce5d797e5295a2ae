import OpenAlice.Workspaces.RosterDurable

/-!
# The names of sessions

`ProductSessionCoordinator.ensureRecord` of `src/workspaces/product-session-coordinator.ts` gives
a new session the name that `nextName` of `src/workspaces/session-registry.ts` finds: one more
than the highest number among the records that are present.  It takes the name at once, but
`create` waits before it puts the record into the roster.

So a name comes back when the highest record is removed, and two births share a name when both
take theirs before either record is there.  `belowPresent` is the condition that neither happens
where a name is taken, and `names_differ` the law under it.

A birth starts here with its resume identity.  Births of one resume identity wait for each other.
`ever` is read by no step: the records that were stored at the start, and all that were created.
-/

namespace OpenAlice.Workspaces

open OpenAlice.Data OpenAlice.Run

/-! ## The next name -/

/-- The number of a name: the digits of `^prefix(\d+)$`. -/
def numberUnder (namePrefix name : String) : Option Nat :=
  (namePrefix.toList.isPrefixOf? name.toList).bind fun digits ↦
    if digits ≠ [] ∧ digits.all Char.isDigit = true then some (Nat.ofDigitChars 10 digits 0)
    else none

def numbersUnder (records : List SessionRecord) (agent namePrefix : String) : List Nat :=
  (records.filter (·.agent = agent)).filterMap fun r ↦ numberUnder namePrefix r.name

/-- The highest of some numbers, and at least `max`. -/
def highestFrom (max : Nat) (numbers : List Nat) : Nat :=
  numbers.foldl (fun max n ↦ if max < n then n else max) max

def maxSafeInteger : Nat := 9007199254740991

/-- What the platform computes with the numbers of names, which it keeps in floating point. -/
structure NameNumbers where
  /-- The text of `max + 1`. -/
  next : List Nat → String
  next_of_safe : ∀ numbers, (∀ n ∈ numbers, n ≤ maxSafeInteger) →
    next numbers = toString (highestFrom 0 numbers + 1)

variable (js : NameNumbers)

def Registry.nextName (s : Registry) (agent namePrefix : String) : String :=
  match s.records with
  | none => namePrefix ++ "1"
  | some records => namePrefix ++ js.next (numbersUnder records agent namePrefix)

/-! ## The births of sessions -/

def nonEmpty (text : Option String) : Option String := text.filter (· ≠ "")

/-- What `ensureRecord` is given. -/
structure BirthInput where
  resumeId : String
  wsId : String
  agent : String
  namePrefix : String
  /-- `recordId`, or else the name that `generatePetnameId` makes up. -/
  recordId : String
  /-- `recordCreatedAt ?? now`, as text. -/
  createdAt : String
  now : String
  state : Option SessionState := none
  surface : Option Surface := none
  agentSessionId : Option String := none
  /-- As `normalizeSessionTitle` leaves it. -/
  fallbackTitle : Option String := none
  sourceRunId : Option String := none

/-- What a birth changes of a record that exists, but for its `lastActiveAt`. -/
def BirthInput.patch (input : BirthInput) (existing : SessionRecord) : SessionPatch where
  state := input.state.filter (existing.state ≠ ·)
  surface := (input.surface.filter (existing.surface ≠ some ·)).map some
  fallbackTitle := if (nonEmpty existing.fallbackTitle).isSome then none
    else (nonEmpty input.fallbackTitle).map some
  sourceRunId := if (nonEmpty existing.sourceRunId).isSome then none
    else (nonEmpty input.sourceRunId).map some
  resumeHint := if existing.resumeHint.isSome then none
    else (nonEmpty input.agentSessionId).map some

def BirthInput.record (input : BirthInput) (name : String) : SessionRecord where
  id := input.recordId
  resumeId := input.resumeId
  wsId := input.wsId
  agent := input.agent
  name
  createdAt := input.createdAt
  lastActiveAt := input.createdAt
  state := input.state.getD .paused
  surface := some (input.surface.getD .headless)
  fallbackTitle := nonEmpty input.fallbackTitle
  sourceRunId := nonEmpty input.sourceRunId
  resumeHint := nonEmpty input.agentSessionId

inductive RosterCall where
  | ensureRecord (input : BirthInput)
  | update (id : String) (patch : SessionPatch)
  | remove (id : String)
  | removeAllFor

inductive BirthTask where
  | queued (input : BirthInput) (previous : Option Nat)
  /-- In the `ensureLoaded` of `ensureRecord`. -/
  | ensuring (input : BirthInput) (k : SessionTask)
  /-- In the `ensureLoaded` of `create`. -/
  | creating (record : SessionRecord) (k : SessionTask)
  | calling (k : SessionTask)
  | failed (message : String)

def BirthTask.settled : BirthTask → Bool
  | .queued _ _ => false
  | .ensuring _ k | .creating _ k | .calling k => k.settled
  | .failed _ => true

structure Coordinator where
  registry : Registry
  /-- `mutationTails` -/
  tails : String → Option Nat := fun _ ↦ none
  ended : List Nat := []
  ever : List SessionRecord := []

/-- A call stands at `k`. -/
def Coordinator.reach (s : Coordinator) (i : Nat) (k : BirthTask) : Coordinator × BirthTask :=
  (if k.settled then { s with ended := i :: s.ended } else s, k)

def Coordinator.start (s : Coordinator) (i : Nat) (call : SessionCall)
    (stand : SessionTask → BirthTask) : Coordinator × BirthTask :=
  { s with registry := (sessionStart s.registry i call).1 }.reach i
    (stand (sessionStart s.registry i call).2)

def rosterStart (s : Coordinator) (i : Nat) : RosterCall → Coordinator × BirthTask
  | .ensureRecord input =>
    ({ s with tails := Function.update s.tails input.resumeId (some i) },
      .queued input (s.tails input.resumeId))
  | .update id patch => s.start i (.update id patch) .calling
  | .remove id => s.start i (.remove id) .calling
  | .removeAllFor => s.start i .removeAllFor .calling

/-- `ensureRecord` after its `ensureLoaded`, up to its next suspension. -/
def ensureBody (s : Coordinator) (i : Nat) (input : BirthInput) : Coordinator × BirthTask :=
  match (s.registry.records.getD []).find? (·.resumeId = input.resumeId) with
  | some existing =>
    if existing.agent ≠ input.agent then
      s.reach i (.failed (s!"session record {existing.id} belongs to " ++
        s!"{existing.wsId}/{existing.agent}, but resume identity {input.resumeId} belongs to " ++
        s!"{input.wsId}/{input.agent}"))
    else if input.patch existing = {} then s.reach i (.calling (.resolved .ensureLoaded []))
    else
      s.start i (.update existing.id { input.patch existing with lastActiveAt := some input.now })
        .calling
  | none =>
    let record := input.record (s.registry.nextName js input.agent input.namePrefix)
    s.start i (.create record) (.creating record)

/-- The insertion of `create`, up to its next suspension. -/
def createBody (s : Coordinator) (i : Nat) (record : SessionRecord) : Coordinator × BirthTask :=
  let (registry, k) := sessionBody s.registry i (.create record)
  { s with registry, ever := if k.settled then s.ever else s.ever ++ [record] }.reach i (.calling k)

variable (codec : RosterCodec)

def Coordinator.goOn (s : Coordinator) (i : Nat) (k : SessionTask) (a : Files.Answer)
    (stand : SessionTask → BirthTask) : Option (Coordinator × BirthTask) :=
  (sessionResume codec s.registry i k a).map fun q ↦
    { s with registry := q.1 }.reach i (if q.2.settled then .calling q.2 else stand q.2)

def rosterResume (s : Coordinator) (i : Nat) :
    BirthTask → Files.Answer → Option (Coordinator × BirthTask)
  | .queued input previous, .done _ =>
    if ∀ j ∈ previous, j ∈ s.ended then some (s.start i .ensureLoaded (.ensuring input)) else none
  | .ensuring input (.loaded _), .done _ => some (ensureBody js s i input)
  | .ensuring input k, a => s.goOn codec i k a (.ensuring input)
  | .creating record (.loaded _), .done _ => some (createBody s i record)
  | .creating record k, a => s.goOn codec i k a (.creating record)
  | .calling k, a => s.goOn codec i k a .calling
  | .queued _ _, .failed | .failed _, _ => none

def rosterProg : Prog Coordinator BirthTask RosterCall Files.Answer where
  start := rosterStart
  resume := rosterResume js codec

def storedRecords (files : Files SessionPath UInt8) : List SessionRecord :=
  match loadFile codec files with
  | .ok records => records
  | .error _ => []

def freshCoordinator (files : Files SessionPath UInt8) : World Coordinator BirthTask where
  shared := { registry := { files }, ever := storedRecords codec files }
  tasks := []

/-! ## The law -/

def Differ (r r' : SessionRecord) : Prop := r.agent = r'.agent → r.name ≠ r'.name

def BirthTask.pending : BirthTask → Option SessionRecord
  | .creating record _ => some record
  | _ => none

def named (W : World Coordinator BirthTask) : List SessionRecord :=
  W.shared.ever ++ W.tasks.filterMap BirthTask.pending

def naming (W : World Coordinator BirthTask) : Event RosterCall Files.Answer → List BirthInput
  | .resume i (.done _) =>
    match W.tasks[i]? with
    | some (.ensuring input (.loaded _)) =>
      if (W.shared.registry.records.getD []).any (·.resumeId = input.resumeId) then []
      else [input]
    | _ => []
  | _ => []

/-- The condition on a step: where a birth takes a name, no number under its prefix was given to
the agent that is above those of the records that are present, and these can be counted. -/
def belowPresent (W : World Coordinator BirthTask) (e : Event RosterCall Files.Answer) : Prop :=
  ∀ input ∈ naming W e,
    (∀ n ∈ numbersUnder (named W) input.agent input.namePrefix,
      ∃ m ∈ numbersUnder (W.shared.registry.records.getD []) input.agent input.namePrefix, n ≤ m) ∧
    ∀ m ∈ numbersUnder (W.shared.registry.records.getD []) input.agent input.namePrefix,
      m ≤ maxSafeInteger

instance (W : World Coordinator BirthTask) (e : Event RosterCall Files.Answer) :
    Decidable (belowPresent W e) :=
  inferInstanceAs (Decidable (∀ input ∈ naming W e, _ ∧ _))

variable {js codec} {W W' : World Coordinator BirthTask} {s s' : Coordinator} {i : Nat}
variable {k k' : BirthTask} {a : Files.Answer} {agent namePrefix : String}

/-! ### Numbers -/

theorem le_highestFrom (numbers : List Nat) (max : Nat) :
    max ≤ highestFrom max numbers ∧ ∀ n ∈ numbers, n ≤ highestFrom max numbers := by
  induction numbers generalizing max with
  | nil => simp [highestFrom]
  | cons m numbers ih =>
    obtain ⟨hfrom, hall⟩ := ih (if max < m then m else max)
    have hboth : max ≤ (if max < m then m else max) ∧ m ≤ (if max < m then m else max) := by
      split_ifs <;> omega
    constructor
    · exact Nat.le_trans hboth.1 hfrom
    intro n hn
    rcases List.mem_cons.mp hn with rfl | hn
    · exact Nat.le_trans hboth.2 hfrom
    · exact hall n hn

theorem isPrefixOf?_append (l digits : List Char) : l.isPrefixOf? (l ++ digits) = some digits := by
  induction l with
  | nil => rfl
  | cons c l ih => simp [List.isPrefixOf?, ih]

theorem numberUnder_append (namePrefix : String) (n : Nat) :
    numberUnder namePrefix (namePrefix ++ toString n) = some n := by
  have hdigits : (toString n).toList = Nat.toDigits 10 n := Nat.toList_repr
  have hall : (Nat.toDigits 10 n).all Char.isDigit = true :=
    List.all_eq_true.mpr fun c hc ↦ Nat.isDigit_of_mem_toDigits (by decide) (Nat.le_refl 10) hc
  rw [numberUnder, String.toList_append, hdigits, isPrefixOf?_append, Option.bind_some,
    if_pos ⟨Nat.toDigits_ne_nil, hall⟩, Nat.ofDigitChars_ten_toDigits]

theorem nextName_eq {s : Registry} (hsafe : ∀ m ∈ numbersUnder (s.records.getD []) agent namePrefix,
    m ≤ maxSafeInteger) : s.nextName js agent namePrefix = namePrefix ++
      toString (highestFrom 0 (numbersUnder (s.records.getD []) agent namePrefix) + 1) := by
  rw [Registry.nextName]
  cases hrecords : s.records with
  | none =>
    have hempty : numbersUnder ((none : Option (List SessionRecord)).getD []) agent namePrefix = [] :=
      rfl
    rw [hempty]
    rfl
  | some records =>
    rw [hrecords] at hsafe
    exact congrArg (namePrefix ++ ·) (js.next_of_safe _ hsafe)

/-- **The next name is nobody's**, if no number of the agent is above those that are present. -/
theorem differ_nextName {s : Registry} {records : List SessionRecord} {input : BirthInput}
    (hbelow : ∀ n ∈ numbersUnder records input.agent input.namePrefix,
      ∃ m ∈ numbersUnder (s.records.getD []) input.agent input.namePrefix, n ≤ m)
    (hsafe : ∀ m ∈ numbersUnder (s.records.getD []) input.agent input.namePrefix,
      m ≤ maxSafeInteger) :
    ∀ r ∈ records, Differ (input.record (s.nextName js input.agent input.namePrefix)) r := by
  intro r hr hagent hname
  have hnumber : numberUnder input.namePrefix r.name = some
      (highestFrom 0 (numbersUnder (s.records.getD []) input.agent input.namePrefix) + 1) := by
    rw [← hname]
    exact (congrArg _ (nextName_eq hsafe)).trans (numberUnder_append _ _)
  have hmem : r ∈ records.filter (·.agent = input.agent) :=
    List.mem_filter.mpr ⟨hr, decide_eq_true hagent.symm⟩
  obtain ⟨m, hm, hle⟩ := hbelow _ (List.mem_filterMap.mpr ⟨r, hmem, hnumber⟩)
  have hhighest := (le_highestFrom _ 0).2 m hm
  omega

/-! ### What a step does to the names -/

@[simp] theorem reach_ever (s : Coordinator) (i : Nat) (k : BirthTask) :
    (s.reach i k).1.ever = s.ever := by
  unfold Coordinator.reach
  split_ifs <;> rfl

@[simp] theorem reach_task (s : Coordinator) (i : Nat) (k : BirthTask) : (s.reach i k).2 = k := rfl

@[simp] theorem start_ever (s : Coordinator) (i : Nat) (call : SessionCall)
    (stand : SessionTask → BirthTask) : (s.start i call stand).1.ever = s.ever :=
  reach_ever _ _ _

inductive Names (js : NameNumbers) (s s' : Coordinator) (k k' : BirthTask) : Prop
  | same (hever : s'.ever = s.ever) (hpending : k'.pending = k.pending)
  | fails (hever : s'.ever = s.ever) (hpending : k'.pending = none)
  | takes (input : BirthInput) (call : SessionCall) (hk : k = .ensuring input (.loaded call))
      (hnew : (s.registry.records.getD []).find? (·.resumeId = input.resumeId) = none)
      (hever : s'.ever = s.ever) (hpending : k'.pending =
        some (input.record (s.registry.nextName js input.agent input.namePrefix)))
  | creates (record : SessionRecord) (hk : k.pending = some record)
      (hever : s'.ever = s.ever ++ [record]) (hpending : k'.pending = none)

theorem Names.goOn {call : SessionTask} (stand : SessionTask → BirthTask)
    (hk : ∀ q, (stand q).pending = k.pending)
    (h : s.goOn codec i call a stand = some (s', k')) : Names js s s' k k' := by
  obtain ⟨q, -, hq⟩ := Option.map_eq_some_iff.mp h
  have hever : s'.ever = s.ever :=
    (congrArg (fun q ↦ Coordinator.ever q.1) hq).symm.trans (reach_ever _ _ _)
  have htask : k' = if q.2.settled then .calling q.2 else stand q.2 := (congrArg Prod.snd hq).symm
  by_cases hsettled : q.2.settled = true
  · rw [if_pos hsettled] at htask
    exact .fails hever (htask ▸ rfl)
  · rw [if_neg hsettled] at htask
    exact .same hever (htask ▸ hk _)

theorem Names.ensured (input : BirthInput) (call : SessionCall) :
    Names js s (ensureBody js s i input).1 (.ensuring input (.loaded call))
      (ensureBody js s i input).2 := by
  unfold ensureBody
  split
  · split_ifs
    · exact .same (reach_ever _ _ _) rfl
    · exact .same (reach_ever _ _ _) rfl
    · exact .same (start_ever _ _ _ _) rfl
  · rename_i hnew
    exact .takes input call rfl hnew (start_ever _ _ _ _) rfl

theorem Names.created (record : SessionRecord) (call : SessionTask) :
    Names js s (createBody s i record).1 (.creating record call) (createBody s i record).2 := by
  unfold createBody
  by_cases hrefused : (sessionBody s.registry i (.create record)).2.settled = true
  · exact .fails (by simp [hrefused]) rfl
  · exact .creates record rfl (by simp [hrefused]) rfl

theorem Names.of_resume (h : rosterResume js codec s i k a = some (s', k')) :
    Names js s s' k k' := by
  unfold rosterResume at h
  split at h
  · split_ifs at h
    have hstart := Option.some.inj h
    exact .same ((congrArg (fun q ↦ q.1.ever) hstart).symm.trans (start_ever _ _ _ _))
      ((congrArg (fun q ↦ q.2.pending) hstart).symm)
  · rename_i input call _
    have hnames : Names js s (ensureBody js s i input).1 (.ensuring input (.loaded call))
        (ensureBody js s i input).2 := .ensured input call
    rw [Option.some.inj h] at hnames
    exact hnames
  · exact .goOn (.ensuring _) (fun _ ↦ rfl) h
  · rename_i record call _
    have hnames : Names js s (createBody s i record).1 (.creating record (.loaded call))
        (createBody s i record).2 := .created record _
    rw [Option.some.inj h] at hnames
    exact hnames
  · exact .goOn (.creating _) (fun _ ↦ rfl) h
  · exact .goOn .calling (fun _ ↦ rfl) h
  · cases h
  · cases h

theorem rosterStart_named (s : Coordinator) (i : Nat) (call : RosterCall) :
    (rosterStart s i call).1.ever = s.ever ∧ (rosterStart s i call).2.pending = none := by
  cases call <;> simp [rosterStart, Coordinator.start, BirthTask.pending]

theorem Differ.symm {r r' : SessionRecord} (h : Differ r r') : Differ r' r :=
  fun hagent hname ↦ h hagent.symm hname.symm

theorem step_differ {e : Event RosterCall Files.Answer} (h : (named W).Pairwise Differ)
    (hok : belowPresent W e) (hst : (rosterProg js codec).step W e = some W') :
    (named W').Pairwise Differ := by
  cases e with
  | call call =>
    obtain rfl := Prog.step_call hst
    obtain ⟨hever, hpending⟩ := rosterStart_named W.shared W.tasks.length call
    have hsame : named ⟨((rosterProg js codec).start W.shared W.tasks.length call).1, W.tasks ++
        [((rosterProg js codec).start W.shared W.tasks.length call).2]⟩ = named W := by
      have hnone : [((rosterProg js codec).start W.shared W.tasks.length call).2].filterMap
          BirthTask.pending = [] := List.filterMap_cons_none hpending
      rw [named, List.filterMap_append, hnone, List.append_nil]
      exact congrArg (· ++ _) hever
    rw [hsame]
    exact h
  | resume i a =>
    obtain ⟨k, s', k', hi, hr, rfl⟩ := Prog.step_resume hst
    obtain ⟨before, after, hbefore, hset⟩ := World.split_task hi
    have hold : named W = W.shared.ever ++ before.filterMap BirthTask.pending ++
        (k.pending.toList ++ after.filterMap BirthTask.pending) := by
      rw [named, hbefore, List.filterMap_append, List.append_assoc]
      cases hk : k.pending <;> simp [hk]
    have hnew : named ⟨s', W.tasks.set i k'⟩ = s'.ever ++ before.filterMap BirthTask.pending ++
        (k'.pending.toList ++ after.filterMap BirthTask.pending) := by
      rw [named, hset, List.filterMap_append, List.append_assoc]
      cases hk : k'.pending <;> simp [hk]
    rw [hnew]
    rw [hold] at h
    cases Names.of_resume hr with
    | same hever hpending =>
      rw [hever, hpending]
      exact h
    | fails hever hpending =>
      rw [hever, hpending]
      refine h.sublist ((List.Sublist.refl _).append ?_)
      exact List.sublist_append_right _ _
    | takes input call hk hnone hever hpending =>
      subst hk
      rw [hever, hpending]
      have hany : (W.shared.registry.records.getD []).any (·.resumeId = input.resumeId) = false :=
        List.any_eq_false.mpr (List.find?_eq_none.mp hnone)
      have hinput : input ∈ naming W (.resume i a) := by
        cases a with
        | done n => simp [naming, hi, hany]
        | failed => simp [rosterProg, rosterResume, Coordinator.goOn, sessionResume] at hr
      obtain ⟨hbelow, hsafe⟩ := hok input hinput
      have hdiffer := @differ_nextName js _ _ _ hbelow hsafe
      rw [hold] at hdiffer
      refine (List.perm_middle.pairwise_iff Differ.symm).mpr (List.pairwise_cons.mpr ⟨?_, h⟩)
      exact hdiffer
    | creates record hk hever hpending =>
      rw [hever, hpending, List.append_assoc W.shared.ever, List.append_assoc W.shared.ever]
      rw [hk, List.append_assoc] at h
      refine (List.Perm.append_left _ ?_).pairwise_iff Differ.symm |>.mp h
      exact List.perm_middle

/-- **Session names are never reused**, where no name that is taken is below another that was
given. -/
theorem names_differ {files : Files SessionPath UInt8}
    (hstored : (storedRecords codec files).Pairwise Differ)
    (h : Reach (rosterProg js codec).step belowPresent (freshCoordinator codec files) W) :
    W.shared.ever.Pairwise Differ := by
  have hnamed : (named W).Pairwise Differ := by
    refine h.invariant (I := fun W ↦ (named W).Pairwise Differ) ?_ ?_
    · rw [named, freshCoordinator, List.filterMap_nil, List.append_nil]
      exact hstored
    · intro W e W' hW hok hst
      exact step_differ hW hok hst
  exact hnamed.sublist (List.sublist_append_left _ _)

def countedNumbers : NameNumbers where
  next numbers := toString (highestFrom 0 numbers + 1)
  next_of_safe _ _ := rfl

/-- A Codex session is born, as call `i`. -/
def born (i : Nat) (recordId resumeId : String) : List (Event RosterCall Files.Answer) :=
  [.call (.ensureRecord ⟨resumeId, "w", "codex", "x", recordId, "2026-08-23T08:00:00.000Z",
      "2026-08-23T08:00:00.000Z", none, none, none, none, none⟩), .resume i (.done 0), .resume i (.done 0), .resume i (.done 0)]

noncomputable def rosterAfter (events : List (Event RosterCall Files.Answer)) :
    Option (World Coordinator BirthTask) :=
  exec (rosterProg countedNumbers writtenJson).step (freshCoordinator writtenJson .empty) events

/-- One session is born after another, and the first is removed. -/
theorem names_differ_twoBirths : ∃ W, rosterAfter (born 0 "s-1" "r-1" ++ born 1 "s-2" "r-2" ++
      [.call (.remove "s-1"), .resume 2 (.done 0)]) = some W ∧ W.shared.ever.Pairwise Differ := by
  obtain ⟨W, hW⟩ : ∃ W, rosterAfter (born 0 "s-1" "r-1" ++ born 1 "s-2" "r-2" ++
      [.call (.remove "s-1"), .resume 2 (.done 0)]) = some W :=
    Option.isSome_iff_exists.mp (by decide +kernel)
  have hok : ExecOk (rosterProg countedNumbers writtenJson).step belowPresent
      (freshCoordinator writtenJson .empty) (born 0 "s-1" "r-1" ++ born 1 "s-2" "r-2" ++
      [.call (.remove "s-1"), .resume 2 (.done 0)]) := by decide +kernel
  exact ⟨W, hW, names_differ .nil (.of_execOk hW hok)⟩

/-- **A name comes back.**  The only session of a workspace is removed, and the next one gets its
name. -/
theorem name_reused : ¬ ∀ (js : NameNumbers) (codec : RosterCodec)
    (files : Files SessionPath UInt8) (W : World Coordinator BirthTask),
    (storedRecords codec files).Pairwise Differ →
    Reach (rosterProg js codec).step anyStep (freshCoordinator codec files) W →
      W.shared.ever.Pairwise Differ := by
  intro hall
  have hnames : (rosterAfter (born 0 "s-1" "r-1" ++ [.call (.remove "s-1"), .resume 1 (.done 0)] ++
      born 2 "s-2" "r-2")).map (fun W ↦ W.shared.ever.map fun r ↦ (r.agent, r.name)) =
      some [("codex", "x1"), ("codex", "x1")] := by decide +kernel
  obtain ⟨W, hW, hever⟩ := Option.map_eq_some_iff.mp hnames
  have hdiffer := hall countedNumbers writtenJson .empty W .nil (.of_exec _ hW)
  have hpairs : (W.shared.ever.map fun r ↦ (r.agent, r.name)).Pairwise
      fun p p' ↦ p.1 = p'.1 → p.2 ≠ p'.2 := hdiffer.map _ fun _ _ h ↦ h
  rw [hever] at hpairs
  exact absurd hpairs (by decide)

end OpenAlice.Workspaces
