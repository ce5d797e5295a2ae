import Mathlib.Algebra.Order.Group.Int
import Mathlib.Data.List.Basic
import OpenAlice.Scheduling.Scanner

/-!
# An Issue is not fired again too early

Whether an Issue is due depends on its marker alone, and a scan that completes prunes
every marker it has not come across: also that of an Issue that is still declared, when
the Issues of its workspace, or its file, could not be read this time, or when it was not
the first desk of its connector.  `forgetStep` is the condition that such a scan finds no
marker that still counts, and `claimStep` that a worker that runs gets its marker.
-/

namespace OpenAlice.Scheduling

open OpenAlice.Run

/-! ## Markers -/

theorem lookup_filter (records : Records) (p : String → Bool) (k : String) :
    (records.filter fun r ↦ p r.1).lookup k = if p k then records.lookup k else none := by
  induction records with
  | nil => simp
  | cons r records ih =>
    obtain ⟨k', record⟩ := r
    by_cases hk : k = k'
    · subst hk
      by_cases hp : p k = true
      · simp [hp]
      · simp [hp, ih]
    have hne : (k == k') = false := beq_eq_false_iff_ne.mpr hk
    by_cases hp' : p k' = true
    · simp [hp', List.lookup_cons, hne, ih]
    · simp [hp', List.lookup_cons, hne, ih]

namespace Records

variable {records : Records} {k k' : String} {record : MarkerRecord} {ts : Int}

theorem lookup_put_self : (records.put k record).lookup k = some record := by
  rw [put, List.lookup_cons_self]

theorem lookup_put_of_ne (h : k ≠ k') : (records.put k' record).lookup k = records.lookup k := by
  rw [put, List.lookup_cons, beq_eq_false_iff_ne.mpr h]
  have hfilter := lookup_filter records (fun name ↦ decide (name ≠ k')) k
  simp only [h, ne_eq, not_false_eq_true, decide_true, if_true] at hfilter
  exact hfilter

@[simp] theorem get_set_self : (records.set k ts).get k = some ts := by
  rw [get, set, lookup_put_self]
  rfl

theorem get_set_of_ne (h : k ≠ k') : (records.set k' ts).get k = records.get k := by
  rw [get, set, lookup_put_of_ne h]
  rfl

/-- A held cursor does not touch the time of the last fire. -/
@[simp] theorem get_hold : (records.hold k' ts).get k = records.get k := by
  by_cases h : k = k'
  · subst h
    rw [get, hold, lookup_put_self, get]
    cases records.lookup k <;> rfl
  · rw [get, hold, lookup_put_of_ne h]
    rfl

theorem get_prune (seen : List String) :
    (records.prune seen).get k = if k ∈ seen then records.get k else none := by
  rw [get, prune, lookup_filter records (fun name ↦ seen.contains name) k]
  simp only [List.contains_iff_mem]
  split <;> rfl

end Records

theorem key_inj {ws ws' : WsId} {id id' : String} (h : key ws id = key ws' id') :
    ws = ws' ∧ id = id' := by
  have hlist := congrArg String.toList h
  simp only [key, String.toList_append, List.append_assoc] at hlist
  have hsplit : ∀ (w : WsId) (rest : List Char),
      (w.name.toList ++ (' ' :: rest)).takeWhile (· ≠ ' ') = w.name.toList := by
    intro w rest
    rw [List.takeWhile_append_of_pos]
    · simp
    rintro c hc
    rw [decide_eq_true_eq]
    rintro rfl
    exact w.slug hc
  have hname := congrArg (List.takeWhile (· ≠ ' ')) hlist
  rw [show " ".toList = [' '] from rfl, List.singleton_append, List.singleton_append, hsplit, hsplit]
    at hname
  rw [hname] at hlist
  have hid := List.append_cancel_left (List.append_cancel_left hlist)
  cases ws
  cases ws'
  cases String.toList_injective hname
  exact ⟨rfl, String.toList_injective hid⟩

theorem get_noteCronMiss (cfg : ScanConfig) (records : Records) (k k' : String)
    (schedule : Schedule)
    (nowMs : Int) : (noteCronMiss cfg records k' schedule nowMs).get k = records.get k := by
  unfold noteCronMiss
  split
  · simp only
    split
    · rfl
    split
    · rfl
    split
    · exact Records.get_hold
    split
    · exact Records.get_hold
    · rfl
  · rfl

/-! ## What should hold -/

theorem nextRun_at {cfg : ScanConfig} {at₀ : String} {afterMs next : Int}
    (h : computeNextRun cfg (.at at₀) afterMs = some next) :
    cfg.parseDate at₀ = some next ∧ afterMs < next := by
  obtain ⟨t₀, hparse, hnext⟩ := Option.bind_eq_some_iff.mp h
  by_cases hlater : afterMs < t₀
  · rw [if_pos hlater] at hnext
    cases hnext
    exact ⟨hparse, hlater⟩
  · rw [if_neg hlater] at hnext
    cases hnext

theorem nextRun_every {cfg : ScanConfig} {every : String} {afterMs next : Int}
    (h : computeNextRun cfg (.every every) afterMs = some next) :
    ∃ ms, parseDuration every = some ms ∧ next = afterMs + ms := by
  obtain ⟨ms, hparse, hnext⟩ := Option.map_eq_some_iff.mp h
  exact ⟨ms, hparse, hnext.symm⟩

def dispatchTimes (k : String) (dispatched : List Dispatched) : List Int :=
  (dispatched.filter fun d ↦ d.key = k).map Dispatched.now

/-- A one-shot Issue is dispatched at most once, one with an interval never twice less
than the interval apart. -/
def Respects (schedule : Schedule) (times : List Int) : Prop :=
  match schedule with
  | .at _ => times.length ≤ 1
  | .every every => ∀ ms, parseDuration every = some ms → times.Pairwise fun a b ↦ a + (ms : Int) ≤ b
  | .cron .. => True

def Apart (schedule : Schedule) (a b : Int) : Prop :=
  match schedule with
  | .at _ => False
  | .every every => ∀ ms, parseDuration every = some ms → a + (ms : Int) ≤ b
  | .cron .. => True

theorem respects_of_pairwise {schedule : Schedule} {times : List Int}
    (h : times.Pairwise (Apart schedule)) : Respects schedule times := by
  cases schedule with
  | «at» at₀ =>
    match times with
    | [] => exact Nat.zero_le 1
    | [_] => exact Nat.le_refl 1
    | a :: b :: times => exact ((List.pairwise_cons.mp h).1 b List.mem_cons_self).elim
  | every every => exact fun ms hms ↦ h.imp fun hab ↦ hab ms hms
  | cron => trivial

theorem Apart.mono {schedule : Schedule} {a a' b b' : Int} (h : Apart schedule a b) (ha : a' ≤ a)
    (hb : b ≤ b') : Apart schedule a' b' := by
  cases schedule with
  | «at» at₀ => exact h.elim
  | every every =>
    intro ms hms
    have hab := h ms hms
    omega
  | cron => trivial

/-! ## The conditions on the scans -/

def Keeps (id : String) (schedule : Schedule) : Option ReadIssuesResult → Prop
  | none | some (.invalid _) => True
  | some .absent => False
  | some (.ok issues invalid) => (id ∈ invalid ∨ ∃ issue ∈ issues, issue.id = id) ∧
      ∀ issue ∈ issues, issue.id = id → issue.when? = some schedule

/-- The workspace is registered, and its Issue is neither deleted nor given another
schedule. -/
def keptStep (ws : WsId) (id : String) (schedule : Schedule) (s : Scan) : Prop :=
  (∃ w ∈ s.workspaces, w.id = ws) ∧
    ∀ w ∈ s.workspaces, w.id = ws → Keeps id schedule w.deskRead ∧ Keeps id schedule w.read

def listed (w : WorkspaceScan) : List IssueRecord :=
  match w.read with
  | some (.ok issues _) => if w.observeThrows then [] else issues
  | _ => []

def claimStep (cfg : ScanConfig) (ws : WsId) (id : String) (s : Scan) : Prop :=
  ∀ w ∈ s.workspaces, w.id = ws → ∀ issue ∈ listed w, issue.id = id →
    issueAssigneeClaimsFirstSession issue.assignee = true → cfg.claimFreshSession = true

def throws (w : WorkspaceScan) : Bool :=
  match w.read with
  | some (.ok _ _) => w.observeThrows
  | _ => false

def isSeen (extraDesks : List String) (w : WorkspaceScan) (issue : IssueRecord) : Bool :=
  issue.when?.isSome &&
    !(isConnectorDeskIssue issue && extraDesks.contains (deskKey w.id.name issue.id))

/-- **A scan that completes without having come across the Issue** finds no marker of a
fire of it, or one of a fire after which it may be fired again. -/
def forgetStep (cfg : ScanConfig) (ws : WsId) (id : String) (schedule : Schedule) (S : ScanState)
    (s : Scan) : Prop :=
  ∀ desks, findConnectorDesks cfg s.workspaces = some desks →
    (∀ w ∈ s.workspaces, throws w = false) →
      (∀ w ∈ s.workspaces, w.id = ws → ∀ issue ∈ listed w, issue.id = id →
        isSeen (extraConnectorDeskKeys [] desks) w issue = false) →
        ∀ f, S.records.get (key ws id) = some f → Apart schedule f s.nowMs

/-- The scans under which an Issue is not fired again too early. -/
def rememberedStep (cfg : ScanConfig) (ws : WsId) (id : String) (schedule : Schedule) (S : ScanState)
    (s : Scan) : Prop :=
  keptStep ws id schedule s ∧ claimStep cfg ws id s ∧ forgetStep cfg ws id schedule S s

/-! ## What the marker stands for -/

variable {cfg : ScanConfig} {schedule : Schedule} {fired : Option Int} {times : List Int}
  {clock now : Int}

/-- A dispatch of a one-shot Issue comes at its time or later. -/
def Timely (cfg : ScanConfig) (schedule : Schedule) (t : Int) : Prop :=
  match schedule with
  | .at at₀ => ∀ t₀, cfg.parseDate at₀ = some t₀ → t₀ ≤ t
  | _ => True

/-- The marker of an Issue remembers its dispatches as long as they count. -/
structure Remembered (cfg : ScanConfig) (schedule : Schedule) (fired : Option Int) (times : List Int)
    (clock : Int) : Prop where
  spaced : times.Pairwise (Apart schedule)
  timely : ∀ t ∈ times, Timely cfg schedule t
  marked : ∀ t ∈ times, (∃ f, fired = some f ∧ t ≤ f ∧ f ≤ clock) ∨ Apart schedule t clock
  past : ∀ t ∈ times, t ≤ clock

theorem remembered_nil : Remembered cfg schedule fired [] clock := by
  constructor <;> simp

theorem Remembered.later (h : Remembered cfg schedule fired times clock) (hnow : clock ≤ now) :
    Remembered cfg schedule fired times now where
  spaced := h.spaced
  timely := h.timely
  marked t ht := by
    rcases h.marked t ht with ⟨f, hf, htf, hfc⟩ | hapart
    · exact .inl ⟨f, hf, htf, hfc.trans hnow⟩
    · exact .inr (hapart.mono (le_refl t) hnow)
  past t ht := (h.past t ht).trans hnow

/-- The marker is pruned when it does not count any more. -/
theorem Remembered.forget (h : Remembered cfg schedule fired times clock)
    (hfired : ∀ f, fired = some f → Apart schedule f clock) :
    Remembered cfg schedule none times clock where
  spaced := h.spaced
  timely := h.timely
  marked t ht := by
    rcases h.marked t ht with ⟨f, hf, htf, _⟩ | hapart
    · exact .inr ((hfired f hf).mono htf (le_refl clock))
    · exact .inr hapart
  past := h.past

/-- **A due Issue is dispatched**, and the time becomes its marker. -/
theorem Remembered.dispatch (h : Remembered cfg schedule fired times now) {held : Option Int}
    (hdue : (computeNextRun cfg schedule (fireBase schedule fired now cfg.intervalMs held)).any
      (· ≤ now) = true) :
    Remembered cfg schedule (some now) (times ++ [now]) now := by
  obtain ⟨next, hnext, hle⟩ := (Option.any_eq_true ..).mp hdue
  rw [decide_eq_true_eq] at hle
  have hapart : ∀ t ∈ times, Apart schedule t now := by
    intro t ht
    rcases h.marked t ht with ⟨f, rfl, htf, _⟩ | hapart
    · cases schedule with
      | «at» at₀ =>
        obtain ⟨hparse, hlater⟩ := nextRun_at hnext
        have htimely := h.timely t ht next hparse
        have hf : fireBase (.at at₀) (some f) now cfg.intervalMs held = f := rfl
        rw [hf] at hlater
        exact absurd (htimely.trans htf) (not_le.mpr hlater)
      | every every =>
        intro ms hms
        obtain ⟨ms', hms', hnext⟩ := nextRun_every hnext
        cases hms.symm.trans hms'
        have hf : fireBase (.every every) (some f) now cfg.intervalMs held = f := rfl
        rw [hf] at hnext
        omega
      | cron => trivial
    · exact hapart
  have htimely : Timely cfg schedule now := by
    cases schedule with
    | «at» at₀ =>
      intro t₀ hparse
      cases hparse.symm.trans (nextRun_at hnext).1
      exact hle
    | every => trivial
    | cron => trivial
  constructor
  · rw [List.pairwise_append]
    refine ⟨h.spaced, List.pairwise_singleton _ _, ?_⟩
    intro t ht t' ht'
    rw [List.mem_singleton.mp ht']
    exact hapart t ht
  · rw [List.forall_mem_append]
    exact ⟨h.timely, by simpa using htimely⟩
  · intro t ht
    refine .inl ⟨now, rfl, ?_, le_refl now⟩
    rcases List.mem_append.mp ht with ht | ht
    · exact h.past t ht
    · exact (List.mem_singleton.mp ht).le
  · rw [List.forall_mem_append]
    exact ⟨h.past, by simp⟩

/-! ## One scan -/

variable {ws : WsId} {id : String} {records₀ : Records} {P : Progress} {nowMs : Int}
  {extraDesks : List String}

theorem dispatchTimes_append (k : String) (dispatched : List Dispatched) (d : Dispatched) :
    dispatchTimes k (dispatched ++ [d]) =
      dispatchTimes k dispatched ++ if d.key = k then [d.now] else [] := by
  rw [dispatchTimes, List.filter_append, List.map_append]
  by_cases hk : d.key = k
  · simp [dispatchTimes, hk]
  · simp [dispatchTimes, hk]

theorem fire_seen (key : String) (issue : IssueRecord) (schedule : Schedule)
    (admission : Admission) :
    (fire cfg nowMs key issue schedule admission P).seen = P.seen := by
  unfold fire
  simp only
  split <;> rfl

theorem fire_other (cfg : ScanConfig) (nowMs : Int) (P : Progress) {k key : String} (h : k ≠ key)
    (issue : IssueRecord) (schedule : Schedule)
    (admission : Admission) :
    (fire cfg nowMs key issue schedule admission P).records.get k = P.records.get k ∧
      dispatchTimes k (fire cfg nowMs key issue schedule admission P).dispatched =
        dispatchTimes k P.dispatched := by
  have hkey : ¬ key = k := fun he ↦ h he.symm
  have htimes : dispatchTimes k
      (if admission = .started then P.dispatched ++ [⟨key, nowMs⟩] else P.dispatched) =
        dispatchTimes k P.dispatched := by
    cases admission with
    | refused => rfl
    | started =>
      rw [if_pos rfl, dispatchTimes_append, if_neg hkey, List.append_nil]
  unfold fire
  simp only
  split
  · exact ⟨Records.get_set_of_ne h, htimes⟩
  · exact ⟨get_noteCronMiss .., htimes⟩

theorem fire_self (nowMs : Int) (P : Progress) (key : String) {issue : IssueRecord}
    (schedule : Schedule) (admission : Admission)
    (hclaim : issueAssigneeClaimsFirstSession issue.assignee = true → cfg.claimFreshSession = true) :
    let P' := fire cfg nowMs key issue schedule admission P
    P'.records.get key = P.records.get key ∧
        dispatchTimes key P'.dispatched = dispatchTimes key P.dispatched ∨
      P'.records.get key = some nowMs ∧
        dispatchTimes key P'.dispatched = dispatchTimes key P.dispatched ++ [nowMs] := by
  cases admission with
  | refused => exact .inl ⟨get_noteCronMiss .., rfl⟩
  | started =>
    have hresolves : dispatchIssue cfg issue .started = true := by
      rw [dispatchIssue, Bool.or_eq_true, Bool.not_eq_true']
      cases hfirst : issueAssigneeClaimsFirstSession issue.assignee with
      | false => exact .inl rfl
      | true => exact .inr (hclaim hfirst)
    right
    simp only [fire, hresolves, if_true]
    exact ⟨Records.get_set_self, by rw [dispatchTimes_append, if_pos rfl]⟩

/-- What a scan has done so far about an Issue. -/
structure Tracked (cfg : ScanConfig) (schedule : Schedule) (k : String) (records₀ : Records) (nowMs : Int)
    (P : Progress) : Prop where
  remembered : Remembered cfg schedule (P.records.get k) (dispatchTimes k P.dispatched) nowMs
  untouched : k ∈ P.seen ∨ P.records.get k = records₀.get k

theorem Tracked.scanIssue (h : Tracked cfg schedule (key ws id) records₀ nowMs P)
    {w : WorkspaceScan}
    {issue : IssueRecord}
    (hkept : w.id = ws → issue.id = id → issue.when? = some schedule ∧
      (issueAssigneeClaimsFirstSession issue.assignee = true → cfg.claimFreshSession = true)) :
    Tracked cfg schedule (key ws id) records₀ nowMs (scanIssue cfg nowMs extraDesks w P issue) := by
  unfold Scheduling.scanIssue
  split
  · exact h
  rename_i schedule' hwhen
  split
  · exact h
  simp only
  have hseen : Tracked cfg schedule (key ws id) records₀ nowMs
      { P with seen := P.seen ++ [key w.id issue.id] } :=
    ⟨h.remembered, h.untouched.imp_left (List.mem_append_left _)⟩
  split
  · rename_i hdue
    rw [Bool.and_eq_true] at hdue
    by_cases hk : key ws id = key w.id issue.id
    · obtain ⟨rfl, rfl⟩ := key_inj hk
      obtain ⟨hsame, hclaim⟩ := hkept rfl rfl
      cases hwhen.symm.trans hsame
      have hfired := fire_self nowMs { P with seen := P.seen ++ [key w.id issue.id] }
        (key w.id issue.id) schedule (w.admission issue) hclaim
      have hmem : key w.id issue.id ∈ (fire cfg nowMs (key w.id issue.id) issue schedule
          (w.admission issue) { P with seen := P.seen ++ [key w.id issue.id] }).seen := by
        rw [fire_seen]
        exact List.mem_append_right _ (List.mem_singleton_self _)
      refine ⟨?_, .inl hmem⟩
      rcases hfired with ⟨hget, htimes⟩ | ⟨hget, htimes⟩
      · rw [hget, htimes]
        exact h.remembered
      · rw [hget, htimes]
        exact h.remembered.dispatch hdue.2
    · obtain ⟨hget, htimes⟩ := fire_other cfg nowMs
        { P with seen := P.seen ++ [key w.id issue.id] } hk issue schedule' (w.admission issue)
      refine ⟨?_, ?_⟩
      · rw [hget, htimes]
        exact h.remembered
      · rw [hget, fire_seen]
        exact hseen.untouched
  · exact hseen

theorem Tracked.issues {w : WorkspaceScan} {issues : List IssueRecord}
    (h : Tracked cfg schedule (key ws id) records₀ nowMs P)
    (hkept : w.id = ws → ∀ issue ∈ issues, issue.id = id → issue.when? = some schedule ∧
      (issueAssigneeClaimsFirstSession issue.assignee = true → cfg.claimFreshSession = true)) :
    Tracked cfg schedule (key ws id) records₀ nowMs
      (issues.foldl (Scheduling.scanIssue cfg nowMs extraDesks w) P) := by
  induction issues generalizing P with
  | nil => exact h
  | cons issue issues ih =>
    refine ih (h.scanIssue fun hw ↦ hkept hw issue List.mem_cons_self) fun hw issue' hmem ↦ ?_
    exact hkept hw issue' (List.mem_cons_of_mem issue hmem)

theorem scanWorkspace_eq (w : WorkspaceScan) : scanWorkspace cfg nowMs extraDesks P w =
      if throws w then { P with threw := true }
      else (listed w).foldl (scanIssue cfg nowMs extraDesks w) P := by
  unfold scanWorkspace throws listed
  cases w.read with
  | none => rfl
  | some read =>
    cases read with
    | ok issues invalid => cases w.observeThrows <;> rfl
    | absent => rfl
    | invalid error => rfl

theorem Tracked.workspaces {workspaces : List WorkspaceScan}
    (h : Tracked cfg schedule (key ws id) records₀ nowMs P)
    (hkept : ∀ w ∈ workspaces, w.id = ws → ∀ issue ∈ listed w, issue.id = id →
      issue.when? = some schedule ∧
        (issueAssigneeClaimsFirstSession issue.assignee = true → cfg.claimFreshSession = true)) :
    Tracked cfg schedule (key ws id) records₀ nowMs
      (workspaces.foldl (scanWorkspace cfg nowMs extraDesks) P) := by
  induction workspaces generalizing P with
  | nil => exact h
  | cons w workspaces ih =>
    refine ih ?_ fun w' hw' ↦ hkept w' (List.mem_cons_of_mem w hw')
    rw [scanWorkspace_eq]
    split
    · exact ⟨h.remembered, h.untouched⟩
    · exact h.issues (hkept w List.mem_cons_self)

/-! ## What a scan comes across -/

theorem scanIssue_seen (cfg : ScanConfig) (nowMs : Int) (extraDesks : List String) (P : Progress)
    (w : WorkspaceScan) (issue : IssueRecord) :
    (scanIssue cfg nowMs extraDesks w P issue).seen =
        P.seen ++ (if isSeen extraDesks w issue then [key w.id issue.id] else []) ∧
      (scanIssue cfg nowMs extraDesks w P issue).threw = P.threw := by
  unfold scanIssue isSeen
  split
  · rename_i hwhen
    simp [hwhen]
  rename_i schedule' hwhen
  split
  · rename_i hextra
    rw [hwhen, hextra]
    simp
  rename_i hextra
  rw [Bool.not_eq_true] at hextra
  simp only [hwhen, hextra, Option.isSome_some, Bool.not_false, Bool.and_self, if_true]
  split
  · refine ⟨fire_seen .., ?_⟩
    unfold fire
    simp only
    split <;> rfl
  · exact ⟨rfl, rfl⟩

theorem scanIssues_seen (cfg : ScanConfig) (nowMs : Int) (extraDesks : List String) (P : Progress)
    (w : WorkspaceScan) (issues : List IssueRecord) :
    (issues.foldl (scanIssue cfg nowMs extraDesks w) P).seen =
        P.seen ++ (issues.filter (isSeen extraDesks w)).map (fun issue ↦ key w.id issue.id) ∧
      (issues.foldl (scanIssue cfg nowMs extraDesks w) P).threw = P.threw := by
  induction issues generalizing P with
  | nil => exact ⟨by simp, rfl⟩
  | cons issue issues ih =>
    obtain ⟨hseen, hthrew⟩ := ih (scanIssue cfg nowMs extraDesks w P issue)
    obtain ⟨hone, hstill⟩ := scanIssue_seen cfg nowMs extraDesks P w issue
    refine ⟨?_, hthrew.trans hstill⟩
    rw [List.foldl_cons, hseen, hone, List.append_assoc]
    congr 1
    rw [List.filter_cons]
    cases isSeen extraDesks w issue <;> rfl

def seenIn (extraDesks : List String) (w : WorkspaceScan) : List String :=
  ((listed w).filter (isSeen extraDesks w)).map fun issue ↦ key w.id issue.id

theorem workspaces_threw (cfg : ScanConfig) (nowMs : Int) (extraDesks : List String) (P : Progress)
    (workspaces : List WorkspaceScan) :
    (workspaces.foldl (scanWorkspace cfg nowMs extraDesks) P).threw =
      (P.threw || workspaces.any throws) := by
  induction workspaces generalizing P with
  | nil => simp
  | cons w workspaces ih =>
    rw [List.foldl_cons, ih, List.any_cons, scanWorkspace_eq, ← Bool.or_assoc]
    congr 1
    split
    · rename_i hthrows
      rw [hthrows, Bool.or_true]
    rename_i hthrows
    rw [Bool.not_eq_true] at hthrows
    rw [(scanIssues_seen ..).2, hthrows, Bool.or_false]

theorem workspaces_seen (cfg : ScanConfig) (nowMs : Int) (extraDesks : List String) (P : Progress)
    (workspaces : List WorkspaceScan) (h : ∀ w ∈ workspaces, throws w = false) :
    (workspaces.foldl (scanWorkspace cfg nowMs extraDesks) P).seen =
      P.seen ++ workspaces.flatMap (seenIn extraDesks) := by
  induction workspaces generalizing P with
  | nil => simp
  | cons w workspaces ih =>
    have hw := h w List.mem_cons_self
    rw [List.foldl_cons, ih _ fun w' hw' ↦ h w' (List.mem_cons_of_mem w hw'), scanWorkspace_eq, hw,
      List.flatMap_cons, ← List.append_assoc]
    congr 1
    exact (scanIssues_seen ..).1

/-! ## Every scan -/

theorem Remembered.scan {S : ScanState} {s : Scan}
    (h : Remembered cfg schedule (S.records.get (key ws id)) (dispatchTimes (key ws id) S.dispatched)
      S.clock)
    (hnow : S.clock ≤ s.nowMs) (hok : rememberedStep cfg ws id schedule S s) :
    let S' := scan cfg S s
    Remembered cfg schedule (S'.records.get (key ws id)) (dispatchTimes (key ws id) S'.dispatched)
      S'.clock := by
  obtain ⟨⟨_, hkept⟩, hclaim, hforget⟩ := hok
  have hnext := h.later hnow
  simp only [Scheduling.scan]
  split
  · exact hnext
  rename_i desks hdesks
  have hlisted : ∀ w ∈ s.workspaces, w.id = ws → ∀ issue ∈ listed w, issue.id = id →
      issue.when? = some schedule ∧
        (issueAssigneeClaimsFirstSession issue.assignee = true → cfg.claimFreshSession = true) := by
    intro w hw hid issue hissue hissueId
    refine ⟨?_, hclaim w hw hid issue hissue hissueId⟩
    have hread := (hkept w hw hid).2
    unfold listed at hissue
    split at hissue
    · rename_i issues invalid hok
      rw [hok] at hread
      split at hissue
      · cases hissue
      · exact hread.2 issue hissue hissueId
    · cases hissue
  have htracked : Tracked cfg schedule (key ws id) S.records s.nowMs
      (s.workspaces.foldl (scanWorkspace cfg s.nowMs (extraConnectorDeskKeys [] desks))
        { records := S.records, dispatched := S.dispatched }) :=
    Tracked.workspaces ⟨hnext, .inr rfl⟩ hlisted
  have hthrew := workspaces_threw cfg s.nowMs (extraConnectorDeskKeys [] desks)
    { records := S.records, dispatched := S.dispatched } s.workspaces
  have hseen := workspaces_seen cfg s.nowMs (extraConnectorDeskKeys [] desks)
    { records := S.records, dispatched := S.dispatched } s.workspaces
  generalize s.workspaces.foldl (scanWorkspace cfg s.nowMs (extraConnectorDeskKeys [] desks))
    { records := S.records, dispatched := S.dispatched } = P at htracked hthrew hseen ⊢
  split
  · exact htracked.remembered
  rename_i hcompletes
  rw [Bool.not_eq_true, hthrew, Bool.false_or, List.any_eq_false] at hcompletes
  have hcalm : ∀ w ∈ s.workspaces, throws w = false := fun w hw ↦
    Bool.not_eq_true _ ▸ hcompletes w hw
  rw [Records.get_prune]
  split
  · exact htracked.remembered
  rename_i hnot
  have hget := htracked.untouched.resolve_left hnot
  have hmissed : ∀ w ∈ s.workspaces, w.id = ws → ∀ issue ∈ listed w, issue.id = id →
      isSeen (extraConnectorDeskKeys [] desks) w issue = false := by
    intro w hw hid issue hissue hissueId
    rw [← Bool.not_eq_true]
    intro hsees
    apply hnot
    rw [hseen hcalm, List.nil_append, List.mem_flatMap]
    refine ⟨w, hw, List.mem_map.mpr ⟨issue, List.mem_filter.mpr ⟨hissue, hsees⟩, ?_⟩⟩
    rw [hid, hissueId]
  refine htracked.remembered.forget fun f hf ↦ ?_
  exact hforget desks hdesks hcalm hmissed f (hget ▸ hf)

/-- **An Issue is not fired again too early**, in every run of scans that meet the
conditions, from any marker store. -/
theorem fires_once {S₀ S : ScanState} (h₀ : S₀.dispatched = [])
    (h : Reach (scanStep cfg) (rememberedStep cfg ws id schedule) S₀ S) :
    Respects schedule (dispatchTimes (key ws id) S.dispatched) := by
  have hremembered := h.invariant (I := fun V ↦ Remembered cfg schedule (V.records.get (key ws id))
    (dispatchTimes (key ws id) V.dispatched) V.clock) (by rw [h₀]; exact remembered_nil) ?_
  · exact respects_of_pairwise hremembered.spaced
  intro V s V' hV hok hst
  rw [scanStep] at hst
  split at hst
  · cases hst
  rename_i hnow
  cases hst
  exact hV.scan (not_lt.mp hnow) hok

/-! ## Runs to evaluate -/

def sampleConfig : ScanConfig where
  parseDate _ := some 1767225600000
  nextCronFire _ _ _ := none
  localeCompare a b := compareOfLessAndEq a b
  intervalMs := 60000
  claimFreshSession := true

def sampleWs : WsId := ⟨"w1", by decide⟩

def sampleIssue (schedule : Schedule) : IssueRecord where
  id := "t1"
  status := .todo
  when? := some schedule
  assignee := "@new-each-run"

def readScan (schedule : Schedule) (nowMs : Int) : Scan where
  nowMs := nowMs
  workspaces :=
    [{ id := sampleWs
       deskRead := some (.ok [sampleIssue schedule] [])
       read := some (.ok [sampleIssue schedule] [])
       admission := fun _ ↦ .started }]

def invalidScan (nowMs : Int) : Scan where
  nowMs := nowMs
  workspaces :=
    [{ id := sampleWs
       deskRead := some (.invalid "EACCES")
       read := some (.invalid "EACCES")
       admission := fun _ ↦ .started }]

theorem keptStep_readScan (schedule : Schedule) (nowMs : Int) :
    keptStep sampleWs "t1" schedule (readScan schedule nowMs) := by
  refine ⟨⟨_, List.mem_singleton_self _, rfl⟩, ?_⟩
  intro w hw _
  rw [List.mem_singleton.mp hw]
  exact ⟨⟨.inr ⟨_, List.mem_singleton_self _, rfl⟩, by simp [sampleIssue]⟩,
    .inr ⟨_, List.mem_singleton_self _, rfl⟩, by simp [sampleIssue]⟩

theorem keptStep_invalidScan (schedule : Schedule) (nowMs : Int) :
    keptStep sampleWs "t1" schedule (invalidScan nowMs) := by
  refine ⟨⟨_, List.mem_singleton_self _, rfl⟩, ?_⟩
  intro w hw _
  rw [List.mem_singleton.mp hw]
  exact ⟨trivial, trivial⟩

theorem rememberedStep_readScan (schedule : Schedule) (nowMs : Int) (S : ScanState) :
    rememberedStep sampleConfig sampleWs "t1" schedule S (readScan schedule nowMs) := by
  refine ⟨keptStep_readScan schedule nowMs, fun _ _ _ _ _ _ _ ↦ rfl, ?_⟩
  intro desks _ _ hmissed
  have hseen := hmissed _ (List.mem_singleton_self _) rfl (sampleIssue schedule)
    (List.mem_singleton_self _) rfl
  simp [isSeen, sampleIssue, isConnectorDeskIssue] at hseen

def hourly : List Scan :=
  [readScan (.every "1h") 1767225600000, readScan (.every "1h") 1767225660000,
    invalidScan 1767229200000, readScan (.every "1h") 1767229260000]

/-- The marker that is forgotten does not count any more. -/
theorem fires_once_hourly : ∃ S : ScanState,
    Reach (scanStep sampleConfig) (rememberedStep sampleConfig sampleWs "t1" (.every "1h")) {} S ∧
      dispatchTimes (key sampleWs "t1") S.dispatched = [1767225600000, 1767229260000] ∧
        Respects (.every "1h") (dispatchTimes (key sampleWs "t1") S.dispatched) := by
  have hr : Reach (scanStep sampleConfig) (rememberedStep sampleConfig sampleWs "t1" (.every "1h")) {}
      (after (scanStep sampleConfig) {} hourly) := by
    refine .of_after hourly (by decide +kernel) ?_
    intro n s hs
    match n with
    | 0 | 1 | 3 =>
      cases hs
      exact rememberedStep_readScan ..
    | 2 =>
      cases hs
      refine ⟨keptStep_invalidScan .., ?_, ?_⟩
      · intro w hw _ issue hissue
        rw [List.mem_singleton.mp hw] at hissue
        cases hissue
      intro _ _ _ _ f hf ms hms
      have hmarker : (after (scanStep sampleConfig) {} (hourly.take 2)).records.get (key sampleWs "t1") =
          some 1767225600000 := by decide +kernel
      have hparse : parseDuration "1h" = some 3600000 := by decide +kernel
      cases hmarker.symm.trans hf
      cases hparse.symm.trans hms
      decide
    | n + 4 => cases hs
  exact ⟨_, hr, by decide +kernel, fires_once rfl hr⟩

def oneShot : List Scan :=
  [readScan (.at "2026-01-01T00:00:00Z") 1767225600000, invalidScan 1767225660000,
    readScan (.at "2026-01-01T00:00:00Z") 1767225720000]

/-- A one-shot Issue is fired again behind a scan that could not read it. -/
theorem not_fires_once : ¬ ∀ (cfg : ScanConfig) (ws : WsId) (id : String) (schedule : Schedule)
    (S : ScanState), Reach (scanStep cfg) (fun _ s ↦ keptStep ws id schedule s) {} S →
      Respects schedule (dispatchTimes (key ws id) S.dispatched) := by
  intro h
  have hr : Reach (scanStep sampleConfig)
      (fun _ s ↦ keptStep sampleWs "t1" (.at "2026-01-01T00:00:00Z") s) {}
      (after (scanStep sampleConfig) {} oneShot) := by
    refine .of_after oneShot (by decide +kernel) ?_
    intro n s hs
    match n with
    | 0 | 2 =>
      cases hs
      exact keptStep_readScan ..
    | 1 =>
      cases hs
      exact keptStep_invalidScan ..
    | n + 3 => cases hs
  have hrespects := h _ _ _ _ _ hr
  have htwice : dispatchTimes (key sampleWs "t1") (after (scanStep sampleConfig) {} oneShot).dispatched =
      [1767225600000, 1767225720000] := by decide +kernel
  rw [htwice] at hrespects
  revert hrespects
  simp [Respects]

end OpenAlice.Scheduling
