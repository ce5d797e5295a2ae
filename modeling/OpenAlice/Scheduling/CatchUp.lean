import OpenAlice.Scheduling.FiredOnce

/-!
# The occurrences of a cron Issue

What a scan does about a cron Issue it comes across is a function of the Issue's marker: the
base from which the next occurrence is computed is the `cursor` of the marker (the last fire,
or what a refused dispatch holds), and the nominal interval back where there is none.
`Turned` lists what a turn can do to the marker, and what holds of all turns is derived from
it.

An Issue that catches up can lose an occurrence: while there is no cursor, one that lies
further back than the interval and behind the last scan is never come to.  `lookbackStep` is
the condition that there is none.

Occurrences are any set of times; `Evaluates` is what `computeNextRun` is taken to do.
-/

namespace OpenAlice.Scheduling

open OpenAlice.Run

/-! ## The marker of a cron Issue -/

namespace MarkerRecord

def cursor (r : MarkerRecord) : Option Int :=
  match r.held, r.fired with
  | some held, none => some held
  | some held, some last => some (if last ≤ held then held else last)
  | none, last => last

def base (cfg : ScanConfig) (nowMs : Int) (r : MarkerRecord) : Int :=
  r.cursor.getD (nowMs - cfg.intervalMs)

end MarkerRecord

def Records.marker (records : Records) (k : String) : MarkerRecord := (records.lookup k).getD {}

theorem Records.get_eq_fired (records : Records) (k : String) :
    records.get k = (records.marker k).fired := by
  rw [Records.get, Records.marker]
  cases records.lookup k <;> rfl

theorem Records.getHeld_eq_held (records : Records) (k : String) :
    records.getHeld k = (records.marker k).held := by
  rw [Records.getHeld, Records.marker]
  cases records.lookup k <;> rfl

theorem fireBase_cron (cfg : ScanConfig) (cron : String) (timezone : Option String)
    (catchUp : Option Bool) (nowMs : Int) (r : MarkerRecord) :
    fireBase (.cron cron timezone catchUp) r.fired nowMs cfg.intervalMs r.held = r.base cfg nowMs := by
  obtain ⟨fired, held⟩ := r
  cases fired <;> cases held <;> rfl

/-- A dispatch that was tried, the occurrence it was for, and whether it resolved. -/
structure Attempt where
  dueAt : Int
  resolved : Bool
deriving DecidableEq

/-- What a scan at `nowMs` can do about a cron Issue with marker `r` that may be fired. -/
inductive Turned (cfg : ScanConfig) (schedule : Schedule) (nowMs : Int) (r : MarkerRecord) :
    Option Attempt → MarkerRecord → Prop
  | /-- The Issue is not due. -/
    idle : (∀ next, computeNextRun cfg schedule (r.base cfg nowMs) = some next → nowMs < next) →
      Turned cfg schedule nowMs r none r
  | /-- It is dispatched. -/
    served {dueAt : Int} : computeNextRun cfg schedule (r.base cfg nowMs) = some dueAt →
      dueAt ≤ nowMs → Turned cfg schedule nowMs r (some ⟨dueAt, true⟩) { fired := some nowMs }
  | /-- It is refused, and stays due by its last fire. -/
    kept {dueAt last : Int} : computeNextRun cfg schedule (r.base cfg nowMs) = some dueAt →
      dueAt ≤ nowMs → scheduleCatchesUp schedule = true → r.fired = some last →
      Turned cfg schedule nowMs r (some ⟨dueAt, false⟩) r
  | /-- It is refused, and its occurrence is held. -/
    held {dueAt : Int} : computeNextRun cfg schedule (r.base cfg nowMs) = some dueAt →
      dueAt ≤ nowMs → scheduleCatchesUp schedule = true → r.fired = none →
      Turned cfg schedule nowMs r (some ⟨dueAt, false⟩) { r with held := some (dueAt - 1) }
  | /-- It is refused, and its occurrence is consumed. -/
    consumed {dueAt : Int} : computeNextRun cfg schedule (r.base cfg nowMs) = some dueAt →
      dueAt ≤ nowMs → scheduleCatchesUp schedule = false →
      Turned cfg schedule nowMs r (some ⟨dueAt, false⟩) { r with held := some nowMs }

/-! ## What should hold -/

/-- The schedule occurs at a set of times, and the next run is the least one strictly after. -/
structure Evaluates (cfg : ScanConfig) (schedule : Schedule) (occurs : Int → Prop) : Prop where
  /-- It is one of them, and none lies between. -/
  next : ∀ after next, computeNextRun cfg schedule after = some next →
    after < next ∧ occurs next ∧ ∀ m, occurs m → after < m → next ≤ m
  last : ∀ after, computeNextRun cfg schedule after = none → ∀ m, occurs m → m ≤ after

/-- A scan, as far as one Issue is concerned. -/
structure Turn where
  nowMs : Int
  attempt : Option Attempt
deriving DecidableEq

def Turn.resolved (t : Turn) : Bool := t.attempt.any Attempt.resolved

def EachTurn (P : List Turn → Turn → Prop) (turns : List Turn) : Prop :=
  ∀ before turn rest, turns = before ++ turn :: rest → P before turn

theorem eachTurn_nil (P : List Turn → Turn → Prop) : EachTurn P [] := by
  intro before turn rest h
  exact nomatch List.append_eq_nil_iff.mp h.symm

theorem EachTurn.concat {P : List Turn → Turn → Prop} {turns : List Turn} (h : EachTurn P turns)
    {turn : Turn} (hturn : P turns turn) : EachTurn P (turns ++ [turn]) := by
  intro before t rest heq
  rcases List.eq_nil_or_concat rest with rfl | ⟨rest, last, rfl⟩
  · obtain ⟨rfl, hlast⟩ := List.append_inj' heq rfl
    cases hlast
    exact hturn
  · rw [List.concat_eq_append, ← List.cons_append, ← List.append_assoc] at heq
    exact h before t rest (List.append_inj' heq rfl).1

variable (occurs : Int → Prop)

def NoneDoubled : List Turn → Prop :=
  EachTurn fun before turn ↦ turn.resolved = true → ∀ t ∈ before, t.resolved = true →
    ∃ m, occurs m ∧ t.nowMs < m ∧ m ≤ turn.nowMs

/-- A dispatch is tried at every scan behind an occurrence that is later than the first scan
and than the last dispatch. -/
def NoneLost : List Turn → Prop :=
  EachTurn fun before turn ↦ ∀ first m, before.head? = some first → occurs m →
    first.nowMs < m → m ≤ turn.nowMs → (∀ t ∈ before, t.resolved = true → t.nowMs < m) →
      turn.attempt.isSome = true

/-- A dispatch is tried for an occurrence since the scan before, and for none older than a
refused one. -/
def OncePerGap : List Turn → Prop :=
  EachTurn fun before turn ↦ ∀ a, turn.attempt = some a →
    occurs a.dueAt ∧ a.dueAt ≤ turn.nowMs ∧ (∀ t ∈ before, t.nowMs < a.dueAt) ∧
      ∀ t ∈ before, ∀ a', t.attempt = some a' → a'.resolved = false → a'.dueAt < a.dueAt

/-! ## What a turn keeps -/

section Turns

variable {occurs} {cfg : ScanConfig} {schedule : Schedule} {nowMs clock : Int} {r r' : MarkerRecord}
  {attempt : Option Attempt} {turns : List Turn}

def Behind (r : MarkerRecord) (clock : Int) : Prop := ∀ b, r.cursor = some b → b ≤ clock

def Remembers (r : MarkerRecord) (turns : List Turn) : Prop :=
  ∀ t ∈ turns, t.resolved = true → ∃ b, r.cursor = some b ∧ t.nowMs ≤ b

/-- The occurrences since the first scan and the last dispatch are ahead of the cursor, or of
the clock when there is none. -/
def Pending (occurs : Int → Prop) (r : MarkerRecord) (clock : Int) (turns : List Turn) : Prop :=
  ∀ first m, turns.head? = some first → occurs m → first.nowMs < m →
    (∀ t ∈ turns, t.resolved = true → t.nowMs < m) → r.cursor.getD clock < m

/-- No occurrence lies between the cursor, or the lookback when there is none, and the clock. -/
def Swept (cfg : ScanConfig) (occurs : Int → Prop) (r : MarkerRecord) (clock : Int)
    (turns : List Turn) : Prop :=
  turns ≠ [] → ∀ m, occurs m → r.base cfg clock < m → clock < m

def Past (turns : List Turn) (clock : Int) : Prop := ∀ t ∈ turns, t.nowMs ≤ clock

theorem cursor_consume (h : Behind r nowMs) :
    ({ r with held := some nowMs } : MarkerRecord).cursor = some nowMs := by
  obtain ⟨fired, held⟩ := r
  cases fired with
  | none => rfl
  | some last =>
    have hlast : last ≤ nowMs := by
      cases held with
      | none => exact h last rfl
      | some held =>
        have hmax := h _ rfl
        split_ifs at hmax with hle
        · exact hle.trans hmax
        · exact hmax
    simp only [MarkerRecord.cursor, if_pos hlast]

theorem cursor_hold (h : r.fired = none) (ts : Int) :
    ({ r with held := some ts } : MarkerRecord).cursor = some ts := by
  obtain ⟨fired, held⟩ := r
  cases h
  rfl

theorem cursor_of_fired {last : Int} (h : r.fired = some last) : ∃ b, r.cursor = some b := by
  obtain ⟨fired, held⟩ := r
  cases h
  cases held <;> exact ⟨_, rfl⟩

namespace Turned

variable (h : Turned cfg schedule nowMs r attempt r')

include h

theorem cursor_le (hev : Evaluates cfg schedule occurs) (hbehind : Behind r nowMs) {b : Int}
    (hb : r.cursor = some b) : ∃ b', r'.cursor = some b' ∧ b ≤ b' := by
  cases h with
  | idle => exact ⟨b, hb, le_rfl⟩
  | served => exact ⟨nowMs, rfl, hbehind b hb⟩
  | kept => exact ⟨b, hb, le_rfl⟩
  | held hnext _ _ hnone =>
    refine ⟨_, cursor_hold hnone _, ?_⟩
    have hlater := (hev.next _ _ hnext).1
    rw [MarkerRecord.base, hb, Option.getD_some] at hlater
    omega
  | consumed => exact ⟨nowMs, cursor_consume hbehind, hbehind b hb⟩

theorem behind (hbehind : Behind r nowMs) : Behind r' nowMs := by
  intro b hb
  cases h with
  | idle => exact hbehind b hb
  | served =>
    cases hb
    exact le_rfl
  | kept => exact hbehind b hb
  | held _ hdue _ hnone =>
    cases (cursor_hold hnone _).symm.trans hb
    omega
  | consumed =>
    cases (cursor_consume hbehind).symm.trans hb
    exact le_rfl

theorem attempt_eq {a : Attempt} (ha : attempt = some a) :
    computeNextRun cfg schedule (r.base cfg nowMs) = some a.dueAt ∧ a.dueAt ≤ nowMs := by
  cases h with
  | idle => cases ha
  | served hnext hdue | kept hnext hdue | held hnext hdue | consumed hnext hdue =>
    cases ha
    exact ⟨hnext, hdue⟩

/-- **Nothing is tried** only where no occurrence lies between the base and the scan. -/
theorem sweeps (hev : Evaluates cfg schedule occurs) (hnone : attempt = none) :
    r' = r ∧ ∀ m, occurs m → r.base cfg nowMs < m → nowMs < m := by
  cases h with
  | idle hidle =>
    refine ⟨rfl, fun m hm hlater ↦ ?_⟩
    cases hnext : computeNextRun cfg schedule (r.base cfg nowMs) with
    | none => exact absurd (hev.last _ hnext m hm) (not_le.mpr hlater)
    | some next => exact (hidle next hnext).trans_le ((hev.next _ _ hnext).2.2 m hm hlater)
  | served | kept | held | consumed => cases hnone

theorem cursor_of_resolved {a : Attempt} (ha : attempt = some a) (hres : a.resolved = true) :
    r'.cursor = some nowMs := by
  cases h with
  | idle => cases ha
  | served => rfl
  | kept | held | consumed =>
    cases ha
    cases hres

end Turned

/-! ### Dispatches and occurrences -/

theorem Remembers.turn (hrem : Remembers r turns) (h : Turned cfg schedule nowMs r attempt r')
    (hev : Evaluates cfg schedule occurs) (hbehind : Behind r nowMs) :
    Remembers r' (turns ++ [⟨nowMs, attempt⟩]) := by
  intro t ht hres
  rcases List.mem_append.mp ht with ht | ht
  · obtain ⟨b, hb, hle⟩ := hrem t ht hres
    obtain ⟨b', hb', hbb'⟩ := h.cursor_le hev hbehind hb
    exact ⟨b', hb', hle.trans hbb'⟩
  obtain rfl := List.mem_singleton.mp ht
  obtain ⟨a, ha, hres⟩ := (Option.any_eq_true ..).mp hres
  exact ⟨nowMs, h.cursor_of_resolved ha hres, le_rfl⟩

theorem NoneDoubled.turn (hdoubled : NoneDoubled occurs turns) (hrem : Remembers r turns)
    (h : Turned cfg schedule nowMs r attempt r') (hev : Evaluates cfg schedule occurs) :
    NoneDoubled occurs (turns ++ [⟨nowMs, attempt⟩]) := by
  refine hdoubled.concat fun hres t ht htres ↦ ?_
  obtain ⟨a, ha, -⟩ := (Option.any_eq_true ..).mp hres
  obtain ⟨b, hb, hle⟩ := hrem t ht htres
  obtain ⟨hnext, hdue⟩ := h.attempt_eq ha
  obtain ⟨hlater, hocc, -⟩ := hev.next _ _ hnext
  rw [MarkerRecord.base, hb, Option.getD_some] at hlater
  exact ⟨a.dueAt, hocc, hle.trans_lt hlater, hdue⟩

theorem Pending.base_lt (hpend : Pending occurs r clock turns) {first : Turn} {m : Int}
    (hfirst : turns.head? = some first) (hm : occurs m) (hlater : first.nowMs < m)
    (hdispatched : ∀ t ∈ turns, t.resolved = true → t.nowMs < m)
    (hlookback : r.cursor = none → clock < m → nowMs - cfg.intervalMs < m) :
    r.base cfg nowMs < m := by
  have hpending := hpend first m hfirst hm hlater hdispatched
  rw [MarkerRecord.base]
  cases hcursor : r.cursor with
  | none =>
    rw [hcursor, Option.getD_none] at hpending
    exact hlookback hcursor hpending
  | some b =>
    rw [hcursor, Option.getD_some] at hpending
    exact hpending

def Reaches (cfg : ScanConfig) (occurs : Int → Prop) (r : MarkerRecord) (clock nowMs : Int)
    (turns : List Turn) : Prop :=
  turns ≠ [] → r.cursor = none → ∀ m, occurs m → clock < m → nowMs - cfg.intervalMs < m

theorem NoneLost.turn (hlost : NoneLost occurs turns) (hpend : Pending occurs r clock turns)
    (hreach : Reaches cfg occurs r clock nowMs turns) (h : Turned cfg schedule nowMs r attempt r')
    (hev : Evaluates cfg schedule occurs) : NoneLost occurs (turns ++ [⟨nowMs, attempt⟩]) := by
  refine hlost.concat fun first m hfirst hm hlater hdue hdispatched ↦ ?_
  have hne : turns ≠ [] := by
    rintro rfl
    cases hfirst
  have hbase : r.base cfg nowMs < m := hpend.base_lt hfirst hm hlater hdispatched
    fun hnone ↦ hreach hne hnone m hm
  refine Option.isSome_iff_ne_none.mpr fun hnone ↦ ?_
  exact not_lt.mpr hdue ((h.sweeps hev hnone).2 m hm hbase)

theorem Pending.turn (hpend : Pending occurs r clock turns) (hbehind : Behind r nowMs)
    (hcatch : scheduleCatchesUp schedule = true)
    (hreach : Reaches cfg occurs r clock nowMs turns) (h : Turned cfg schedule nowMs r attempt r')
    (hev : Evaluates cfg schedule occurs) :
    Pending occurs r' nowMs (turns ++ [⟨nowMs, attempt⟩]) := by
  intro first m hfirst hm hlater hdispatched
  by_cases hne : turns = []
  · -- The first scan: whatever is behind it is ahead of the cursor.
    subst hne
    cases hfirst
    cases hcursor : r'.cursor with
    | none => exact hlater
    | some b => exact (h.behind hbehind b hcursor).trans_lt hlater
  · have hfirst : turns.head? = some first := by
      rw [← hfirst, List.head?_append_of_ne_nil _ hne]
    have hbefore : ∀ t ∈ turns, t.resolved = true → t.nowMs < m := fun t ht ↦
      hdispatched t (List.mem_append_left _ ht)
    have hbase : r.base cfg nowMs < m := hpend.base_lt hfirst hm hlater hbefore
      fun hnone ↦ hreach hne hnone m hm
    cases hattempt : attempt with
    | none =>
      obtain ⟨rfl, hsweeps⟩ := h.sweeps hev hattempt
      cases hcursor : r'.cursor with
      | none => exact hsweeps m hm hbase
      | some b =>
        rw [MarkerRecord.base, hcursor] at hbase
        exact hbase
    | some a =>
      subst hattempt
      cases h with
      | served =>
        exact hdispatched _ (List.mem_append_right _ (List.mem_singleton_self _)) rfl
      | kept _ _ _ hlast =>
        obtain ⟨b, hcursor⟩ := cursor_of_fired hlast
        rw [MarkerRecord.base, hcursor] at hbase
        rw [hcursor]
        exact hbase
      | held hnext _ _ hnone =>
        rw [cursor_hold hnone, Option.getD_some]
        exact (Int.sub_one_lt_of_le le_rfl).trans_le ((hev.next _ _ hnext).2.2 m hm hbase)
      | consumed _ _ hno => exact nomatch hcatch.symm.trans hno

/-! ### Attempts and gaps -/

theorem Swept.turn (hbehind : Behind r nowMs) (hconsumes : scheduleCatchesUp schedule = false)
    (h : Turned cfg schedule nowMs r attempt r') (hev : Evaluates cfg schedule occurs) :
    Swept cfg occurs r' nowMs (turns ++ [⟨nowMs, attempt⟩]) := by
  intro _ m hm hlater
  cases hattempt : attempt with
  | none =>
    obtain ⟨rfl, hsweeps⟩ := h.sweeps hev hattempt
    exact hsweeps m hm hlater
  | some a =>
    subst hattempt
    cases h with
    | served => exact hlater
    | consumed =>
      rw [MarkerRecord.base, cursor_consume hbehind] at hlater
      exact hlater
    | kept _ _ hcatch | held _ _ hcatch => exact nomatch hconsumes.symm.trans hcatch

theorem OncePerGap.turn (honce : OncePerGap occurs turns) (hswept : Swept cfg occurs r clock turns)
    (hpast : Past turns clock) (hdue : ∀ t ∈ turns, ∀ a, t.attempt = some a → a.dueAt ≤ t.nowMs)
    (hnow : clock ≤ nowMs) (h : Turned cfg schedule nowMs r attempt r')
    (hev : Evaluates cfg schedule occurs) : OncePerGap occurs (turns ++ [⟨nowMs, attempt⟩]) := by
  refine honce.concat fun a ha ↦ ?_
  obtain ⟨hnext, hle⟩ := h.attempt_eq ha
  obtain ⟨hlater, hocc, -⟩ := hev.next _ _ hnext
  have hgap : ∀ t ∈ turns, t.nowMs < a.dueAt := by
    intro t ht
    refine (hpast t ht).trans_lt (hswept (List.ne_nil_of_mem ht) _ hocc ?_)
    refine lt_of_le_of_lt ?_ hlater
    -- Without a cursor the lookback only moves on.
    rw [MarkerRecord.base, MarkerRecord.base]
    cases r.cursor with
    | none => exact Int.sub_le_sub_right hnow _
    | some b => exact le_rfl
  exact ⟨hocc, hle, hgap, fun t ht a' ha' _ ↦ (hdue t ht a' ha').trans_lt (hgap t ht)⟩

/-! ### All of it -/

/-- **The invariant of the turns** of a cron Issue. -/
structure Turning (cfg : ScanConfig) (schedule : Schedule) (occurs : Int → Prop) (r : MarkerRecord)
    (clock : Int) (turns : List Turn) : Prop where
  behind : Behind r clock
  remembers : Remembers r turns
  past : Past turns clock
  due : ∀ t ∈ turns, ∀ a, t.attempt = some a → a.dueAt ≤ t.nowMs
  doubled : NoneDoubled occurs turns
  swept : scheduleCatchesUp schedule = false → Swept cfg occurs r clock turns
  once : scheduleCatchesUp schedule = false → OncePerGap occurs turns

theorem turning_nil (h : Behind r clock) : Turning cfg schedule occurs r clock [] where
  behind := h
  remembers := nofun
  past := nofun
  due := nofun
  doubled := eachTurn_nil _
  swept _ := fun hne ↦ (hne rfl).elim
  once _ := eachTurn_nil _

theorem Behind.later (h : Behind r clock) (hnow : clock ≤ nowMs) : Behind r nowMs :=
  fun b hb ↦ (h b hb).trans hnow

theorem Turning.turn (h : Turning cfg schedule occurs r clock turns) (hnow : clock ≤ nowMs)
    (hev : Evaluates cfg schedule occurs) (hturn : Turned cfg schedule nowMs r attempt r') :
    Turning cfg schedule occurs r' nowMs (turns ++ [⟨nowMs, attempt⟩]) where
  behind := hturn.behind (h.behind.later hnow)
  remembers := h.remembers.turn hturn hev (h.behind.later hnow)
  past := by
    intro t ht
    rcases List.mem_append.mp ht with ht | ht
    · exact (h.past t ht).trans hnow
    · rw [List.mem_singleton.mp ht]
  due := by
    intro t ht a ha
    rcases List.mem_append.mp ht with ht | ht
    · exact h.due t ht a ha
    · obtain rfl := List.mem_singleton.mp ht
      exact (hturn.attempt_eq ha).2
  doubled := h.doubled.turn h.remembers hturn hev
  swept hcatch := .turn (h.behind.later hnow) hcatch hturn hev
  once hcatch := (h.once hcatch).turn (h.swept hcatch) h.past h.due hnow hturn hev

end Turns

/-! ## A scan is a turn -/

section Scans

variable {cfg : ScanConfig} {nowMs : Int} {extraDesks : List String} {P : Progress} {k : String}

theorem Records.marker_put_self (records : Records) (record : MarkerRecord) :
    (records.put k record).marker k = record := by
  rw [Records.marker, Records.lookup_put_self]
  rfl

variable {records : Records}

theorem Records.marker_put_of_ne {record : MarkerRecord} {k' : String}
    (h : k ≠ k') : (records.put k' record).marker k = records.marker k := by
  rw [Records.marker, Records.lookup_put_of_ne h, Records.marker]

theorem Records.marker_prune {seen : List String} (h : k ∈ seen) :
    (records.prune seen).marker k = records.marker k := by
  rw [Records.marker, Records.prune, lookup_filter records (fun name ↦ seen.contains name) k,
    if_pos (List.contains_iff_mem.mpr h), Records.marker]

theorem marker_noteCronMiss_of_ne {k' : String} (h : k ≠ k') (schedule : Schedule) :
    (noteCronMiss cfg records k' schedule nowMs).marker k = records.marker k := by
  unfold noteCronMiss
  split
  · simp only
    split
    · rfl
    split
    · rfl
    split
    · exact Records.marker_put_of_ne h
    split
    · exact Records.marker_put_of_ne h
    · rfl
  · rfl

theorem marker_fire_of_ne {k' : String} (h : k ≠ k') (issue : IssueRecord) (schedule : Schedule)
    (admission : Admission) :
    (fire cfg nowMs k' issue schedule admission P).records.marker k = P.records.marker k := by
  unfold fire
  simp only
  split
  · exact Records.marker_put_of_ne h
  · exact marker_noteCronMiss_of_ne h schedule

theorem marker_scanIssue_of_ne {w : WorkspaceScan} {issue : IssueRecord}
    (h : k ≠ key w.id issue.id) :
    (scanIssue cfg nowMs extraDesks w P issue).records.marker k = P.records.marker k := by
  unfold scanIssue
  split
  · rfl
  split
  · rfl
  simp only
  split
  · exact marker_fire_of_ne h ..
  · rfl

theorem marker_issues_of_ne {w : WorkspaceScan} {issues : List IssueRecord}
    (h : ∀ issue ∈ issues, k ≠ key w.id issue.id) :
    (issues.foldl (scanIssue cfg nowMs extraDesks w) P).records.marker k = P.records.marker k := by
  induction issues generalizing P with
  | nil => rfl
  | cons issue issues ih =>
    rw [List.forall_mem_cons] at h
    exact (ih h.2).trans (marker_scanIssue_of_ne h.1)

theorem marker_workspaces_of_ne {workspaces : List WorkspaceScan}
    (h : ∀ w ∈ workspaces, ∀ issue ∈ listed w, k ≠ key w.id issue.id) :
    (workspaces.foldl (scanWorkspace cfg nowMs extraDesks) P).records.marker k =
      P.records.marker k := by
  induction workspaces generalizing P with
  | nil => rfl
  | cons w workspaces ih =>
    rw [List.forall_mem_cons] at h
    refine (ih h.2).trans ?_
    rw [scanWorkspace_eq]
    split
    · rfl
    · exact marker_issues_of_ne h.1

variable {cron : String} {timezone : Option String} {catchUp : Option Bool}

theorem isDue_cron (records : Records) : isDue cfg records k (.cron cron timezone catchUp) nowMs =
      (computeNextRun cfg (.cron cron timezone catchUp) ((records.marker k).base cfg nowMs)).any
        (· ≤ nowMs) := by
  rw [isDue, Records.get_eq_fired, Records.getHeld_eq_held, fireBase_cron]

theorem noteCronMiss_cron {dueAt : Int}
    (hnext : computeNextRun cfg (.cron cron timezone catchUp) ((records.marker k).base cfg nowMs) =
      some dueAt) (hdue : dueAt ≤ nowMs) :
    noteCronMiss cfg records k (.cron cron timezone catchUp) nowMs =
      if scheduleCatchesUp (.cron cron timezone catchUp) = false then records.hold k nowMs
      else if (records.marker k).fired = none then records.hold k (dueAt - 1)
      else records := by
  rw [← fireBase_cron cfg cron timezone catchUp, ← Records.get_eq_fired, ← Records.getHeld_eq_held]
    at hnext
  rw [← Records.get_eq_fired]
  simp only [noteCronMiss, hnext, if_neg (not_lt.mpr hdue), Bool.not_eq_true']

theorem fire_turned (issue : IssueRecord) (admission : Admission) {dueAt : Int}
    (hnext : computeNextRun cfg (.cron cron timezone catchUp) ((P.records.marker k).base cfg nowMs) =
      some dueAt) (hdue : dueAt ≤ nowMs) :
    Turned cfg (.cron cron timezone catchUp) nowMs (P.records.marker k)
      (some ⟨dueAt, dispatchIssue cfg issue admission⟩)
      ((fire cfg nowMs k issue (.cron cron timezone catchUp) admission P).records.marker k) := by
  unfold fire
  cases hres : dispatchIssue cfg issue admission with
  | true =>
    simp only [if_true]
    rw [Records.set, Records.marker_put_self]
    exact .served hnext hdue
  | false =>
    simp only [Bool.false_eq_true, if_false]
    rw [noteCronMiss_cron hnext hdue]
    split_ifs with hcatch hfired
    · rw [Records.hold, Records.marker_put_self]
      exact .consumed hnext hdue hcatch
    · rw [Records.hold, Records.marker_put_self]
      exact .held hnext hdue ((Bool.not_eq_false _).mp hcatch) hfired
    · obtain ⟨last, hlast⟩ := Option.ne_none_iff_exists'.mp hfired
      exact .kept hnext hdue ((Bool.not_eq_false _).mp hcatch) hlast

theorem scanIssue_eq {w : WorkspaceScan} {issue : IssueRecord} {schedule : Schedule}
    (hwhen : issue.when? = some schedule) (hfireable : isFireable issue = true)
    (hseen : isSeen extraDesks w issue = true) :
    scanIssue cfg nowMs extraDesks w P issue =
      if isDue cfg P.records (key w.id issue.id) schedule nowMs then
        fire cfg nowMs (key w.id issue.id) issue schedule (w.admission issue)
          { P with seen := P.seen ++ [key w.id issue.id] }
      else { P with seen := P.seen ++ [key w.id issue.id] } := by
  rw [isSeen, hwhen, Option.isSome_some, Bool.true_and, Bool.not_eq_true'] at hseen
  simp only [scanIssue, hwhen, hseen, hfireable, Bool.true_and, Bool.false_eq_true, if_false]

end Scans

/-! ## The runs -/

section Watch

variable (cfg : ScanConfig) (ws : WsId) (issue : IssueRecord) (schedule : Schedule)

def attemptOf (records : Records) (s : Scan) : Option Attempt :=
  let k := key ws issue.id
  (computeNextRun cfg schedule
    (fireBase schedule (records.get k) s.nowMs cfg.intervalMs (records.getHeld k))).bind fun dueAt ↦
      if dueAt ≤ s.nowMs then
        some ⟨dueAt, (s.workspaces.find? fun w ↦ w.id.name = ws.name).any fun w ↦
          dispatchIssue cfg issue (w.admission issue)⟩
      else none

/-- The scanner, with the turns of an Issue so far. -/
structure Watch where
  state : ScanState
  turns : List Turn := []

def watchStep (V : Watch) (s : Scan) : Option Watch :=
  (scanStep cfg V.state s).map fun state ↦
    { state, turns := V.turns ++ [⟨s.nowMs, attemptOf cfg ws issue schedule V.state.records s⟩] }

def unchangedStep (s : Scan) : Prop :=
  ∃ desks w, findConnectorDesks cfg s.workspaces = some desks ∧
    (s.workspaces.filter fun w ↦ w.id.name = ws.name) = [w] ∧
    ((listed w).filter fun i ↦ i.id = issue.id) = [issue] ∧
    isSeen (extraConnectorDeskKeys [] desks) w issue = true

/-- **A scan that finds neither a marker nor a held cursor** comes soon enough behind the scan
before: no occurrence that has passed since lies further back than the interval. -/
def lookbackStep (occurs : Int → Prop) (V : Watch) (s : Scan) : Prop :=
  V.turns ≠ [] → (V.state.records.marker (key ws issue.id)).cursor = none →
    ∀ m, occurs m → V.state.clock < m → s.nowMs - cfg.intervalMs < m

variable {cfg ws issue schedule}

theorem WsId.ext_name {a b : WsId} (h : a.name = b.name) : a = b := by
  cases a
  cases b
  cases h
  rfl

theorem attemptOf_cron {cron : String} {timezone : Option String} {catchUp : Option Bool}
    {records : Records} {s : Scan} {w : WorkspaceScan}
    (hfind : (s.workspaces.find? fun w ↦ w.id.name = ws.name) = some w) :
    attemptOf cfg ws issue (.cron cron timezone catchUp) records s =
      (computeNextRun cfg (.cron cron timezone catchUp)
        ((records.marker (key ws issue.id)).base cfg s.nowMs)).bind fun dueAt ↦
          if dueAt ≤ s.nowMs then some ⟨dueAt, dispatchIssue cfg issue (w.admission issue)⟩
          else none := by
  rw [attemptOf, Records.get_eq_fired, Records.getHeld_eq_held, fireBase_cron, hfind]
  rfl

theorem scanIssue_turned {cron : String} {timezone : Option String} {catchUp : Option Bool}
    (hwhen : issue.when? = some (.cron cron timezone catchUp)) (hfireable : isFireable issue = true)
    {records : Records} {s : Scan} {w : WorkspaceScan} {extraDesks : List String} {P : Progress}
    (hfind : (s.workspaces.find? fun w' ↦ w'.id.name = w.id.name) = some w)
    (hseen : isSeen extraDesks w issue = true)
    (hmarker : P.records.marker (key w.id issue.id) = records.marker (key w.id issue.id)) :
    Turned cfg (.cron cron timezone catchUp) s.nowMs (records.marker (key w.id issue.id))
      (attemptOf cfg w.id issue (.cron cron timezone catchUp) records s)
      ((scanIssue cfg s.nowMs extraDesks w P issue).records.marker (key w.id issue.id)) := by
  rw [scanIssue_eq hwhen hfireable hseen, isDue_cron, hmarker, attemptOf_cron hfind]
  cases hnext : computeNextRun cfg (.cron cron timezone catchUp)
      ((records.marker (key w.id issue.id)).base cfg s.nowMs) with
  | none =>
    simp only [Option.any_none, Bool.false_eq_true, if_false, Option.bind_none, hmarker]
    exact .idle fun next hsome ↦ nomatch hnext.symm.trans hsome
  | some dueAt =>
    by_cases hdue : dueAt ≤ s.nowMs
    · simp only [Option.any_some, decide_eq_true hdue, if_true, Option.bind_some, if_pos hdue]
      rw [← hmarker] at hnext ⊢
      exact fire_turned (P := { P with seen := P.seen ++ [key w.id issue.id] }) issue
        (w.admission issue) hnext hdue
    simp only [Option.any_some, decide_eq_false hdue, Bool.false_eq_true, if_false,
      Option.bind_some, if_neg hdue, hmarker]
    refine .idle fun next hsome ↦ ?_
    cases hnext.symm.trans hsome
    exact not_le.mp hdue

theorem throws_of_listed {w : WorkspaceScan} (h : listed w ≠ []) : throws w = false := by
  unfold listed at h
  unfold throws
  cases hread : w.read with
  | none => rfl
  | some read =>
    cases read with
    | ok issues invalid =>
      simp only [hread] at h
      split_ifs at h with hthrows
      · exact (h rfl).elim
      · exact Bool.eq_false_iff.mpr hthrows
    | absent | invalid => rfl

theorem scan_turned {cron : String} {timezone : Option String} {catchUp : Option Bool}
    (hwhen : issue.when? = some (.cron cron timezone catchUp)) (hfireable : isFireable issue = true)
    (S : ScanState) {s : Scan} (hunchanged : unchangedStep cfg ws issue s) :
    Turned cfg (.cron cron timezone catchUp) s.nowMs (S.records.marker (key ws issue.id))
      (attemptOf cfg ws issue (.cron cron timezone catchUp) S.records s)
      ((scan cfg S s).records.marker (key ws issue.id)) := by
  obtain ⟨desks, w, hdesks, hregistered, hlisted, hseen⟩ := hunchanged
  have hfind : (s.workspaces.find? fun w ↦ w.id.name = ws.name) = some w := by
    rw [← List.head?_filter, hregistered]
    rfl
  obtain ⟨wsBefore, wsAfter, hws, hnotBefore, hname, hnotAfter⟩ :=
    List.filter_eq_cons_iff.mp hregistered
  obtain ⟨before, rest, hissues, hidBefore, -, hidAfter⟩ := List.filter_eq_cons_iff.mp hlisted
  rw [List.filter_eq_nil_iff] at hnotAfter hidAfter
  obtain rfl : w.id = ws := WsId.ext_name (of_decide_eq_true hname)
  set extraDesks := extraConnectorDeskKeys [] desks with hextra
  -- Neither the other workspaces nor the other Issues touch the marker.
  have hotherWs : ∀ l : List WorkspaceScan, (∀ w' ∈ l, ¬ decide (w'.id.name = w.id.name) = true) →
      ∀ w' ∈ l, ∀ i ∈ listed w', key w.id issue.id ≠ key w'.id i.id :=
    fun l hl w' hw' i _ hk ↦ hl w' hw' (decide_eq_true (congrArg WsId.name (key_inj hk).1.symm))
  have hotherId : ∀ l : List IssueRecord, (∀ i ∈ l, ¬ decide (i.id = issue.id) = true) →
      ∀ i ∈ l, key w.id issue.id ≠ key w.id i.id :=
    fun l hl i hi hk ↦ hl i hi (decide_eq_true (key_inj hk).2.symm)
  set P₀ : Progress := { records := S.records, dispatched := S.dispatched } with hP₀
  set P₁ := wsBefore.foldl (scanWorkspace cfg s.nowMs extraDesks) P₀ with hP₁
  set P₂ := before.foldl (scanIssue cfg s.nowMs extraDesks w) P₁ with hP₂
  set P := s.workspaces.foldl (scanWorkspace cfg s.nowMs extraDesks) P₀ with hP
  have hstart : P₂.records.marker (key w.id issue.id) = S.records.marker (key w.id issue.id) :=
    (marker_issues_of_ne (hotherId before hidBefore)).trans
      (marker_workspaces_of_ne (hotherWs wsBefore hnotBefore))
  have hthrows : throws w = false := throws_of_listed (by rw [hissues]; simp)
  have hend : P.records.marker (key w.id issue.id) =
      (scanIssue cfg s.nowMs extraDesks w P₂ issue).records.marker (key w.id issue.id) := by
    rw [hP, hws, List.foldl_append, List.foldl_cons,
      marker_workspaces_of_ne (hotherWs wsAfter hnotAfter), scanWorkspace_eq, hthrows, hissues]
    simp only [Bool.false_eq_true, if_false, List.foldl_append, List.foldl_cons]
    exact marker_issues_of_ne (hotherId rest hidAfter)
  have hscan : (scan cfg S s).records.marker (key w.id issue.id) =
      P.records.marker (key w.id issue.id) := by
    simp only [scan, hdesks]
    split_ifs with hthrew
    · rfl
    refine Records.marker_prune ?_
    rw [Bool.not_eq_true, workspaces_threw, Bool.false_or, List.any_eq_false] at hthrew
    rw [workspaces_seen _ _ _ _ _ fun w' hw' ↦ Bool.not_eq_true _ ▸ hthrew w' hw',
      List.nil_append, List.mem_flatMap]
    refine ⟨w, by rw [hws]; simp, List.mem_map.mpr ⟨issue, List.mem_filter.mpr ⟨?_, hseen⟩, rfl⟩⟩
    rw [hissues]
    simp
  rw [hscan, hend]
  exact scanIssue_turned hwhen hfireable hfind hseen hstart

/-! ### What holds in every run -/

variable {occurs : Int → Prop} {V₀ V : Watch}

/-- The markers the first scan finds are not ahead of the clock, and no scan has been watched. -/
structure Fresh (ws : WsId) (issue : IssueRecord) (V : Watch) : Prop where
  turns : V.turns = []
  behind : Behind (V.state.records.marker (key ws issue.id)) V.state.clock

theorem watchStep_cases {V' : Watch} {s : Scan}
    (h : watchStep cfg ws issue schedule V s = some V') :
    V.state.clock ≤ s.nowMs ∧ V'.state = scan cfg V.state s ∧
      V'.turns = V.turns ++ [⟨s.nowMs, attemptOf cfg ws issue schedule V.state.records s⟩] := by
  obtain ⟨state, hstate, rfl⟩ := Option.map_eq_some_iff.mp h
  rw [scanStep] at hstate
  split_ifs at hstate with hnow
  cases hstate
  exact ⟨not_lt.mp hnow, rfl, rfl⟩

theorem clock_scan (cfg : ScanConfig) (S : ScanState) (s : Scan) :
    (scan cfg S s).clock = s.nowMs := by
  rw [scan]
  cases findConnectorDesks cfg s.workspaces <;> rfl

section Cron

variable {cron : String} {timezone : Option String} {catchUp : Option Bool}
  (hwhen : issue.when? = some (.cron cron timezone catchUp)) (hfireable : isFireable issue = true)
  (hev : Evaluates cfg (.cron cron timezone catchUp) occurs) (hfresh : Fresh ws issue V₀)

include hwhen hfireable hev hfresh

theorem turning_of_reach (h : Reach (watchStep cfg ws issue (.cron cron timezone catchUp))
      (fun _ s ↦ unchangedStep cfg ws issue s) V₀ V) :
    Turning cfg (.cron cron timezone catchUp) occurs (V.state.records.marker (key ws issue.id))
      V.state.clock V.turns := by
  refine h.invariant (I := fun V ↦ Turning cfg (.cron cron timezone catchUp) occurs
    (V.state.records.marker (key ws issue.id)) V.state.clock V.turns) ?_ ?_
  · rw [hfresh.turns]
    exact turning_nil hfresh.behind
  intro V s V' hturning hunchanged hstep
  obtain ⟨hnow, hstate, hturns⟩ := watchStep_cases hstep
  rw [hstate, hturns, clock_scan]
  exact hturning.turn hnow hev (scan_turned hwhen hfireable V.state hunchanged)

/-- **No occurrence is lost** in a run the lookbacks of which reach. -/
theorem noneLost_of_reach (hcatch : scheduleCatchesUp (.cron cron timezone catchUp) = true)
    (h : Reach (watchStep cfg ws issue (.cron cron timezone catchUp))
      (fun V s ↦ unchangedStep cfg ws issue s ∧ lookbackStep cfg ws issue occurs V s) V₀ V) :
    NoneLost occurs V.turns := by
  have hinv := h.invariant (I := fun V ↦
    Behind (V.state.records.marker (key ws issue.id)) V.state.clock ∧
      Pending occurs (V.state.records.marker (key ws issue.id)) V.state.clock V.turns ∧
        NoneLost occurs V.turns) ?_ ?_
  · exact hinv.2.2
  · rw [hfresh.turns]
    exact ⟨hfresh.behind, nofun, eachTurn_nil _⟩
  · rintro V s V' ⟨hbehind, hpending, hlost⟩ ⟨hunchanged, hlookback⟩ hstep
    obtain ⟨hnow, hstate, hturns⟩ := watchStep_cases hstep
    have hturn := scan_turned hwhen hfireable V.state hunchanged
    rw [hstate, hturns, clock_scan]
    exact ⟨hturn.behind (hbehind.later hnow),
      hpending.turn (hbehind.later hnow) hcatch hlookback hturn hev,
      hlost.turn hpending hlookback hturn hev⟩

/-- **The occurrences of an unchanged cron Issue.**  One that catches up doubles none, and loses
none in a run the lookbacks of which reach; one that does not is tried once a gap, and never
for an occurrence older than a refused one. -/
theorem cron_occurrences : (scheduleCatchesUp (.cron cron timezone catchUp) = true →
      (Reach (watchStep cfg ws issue (.cron cron timezone catchUp))
        (fun _ s ↦ unchangedStep cfg ws issue s) V₀ V → NoneDoubled occurs V.turns) ∧
      (Reach (watchStep cfg ws issue (.cron cron timezone catchUp))
        (fun V s ↦ unchangedStep cfg ws issue s ∧ lookbackStep cfg ws issue occurs V s) V₀ V →
          NoneLost occurs V.turns)) ∧
    (scheduleCatchesUp (.cron cron timezone catchUp) = false →
      Reach (watchStep cfg ws issue (.cron cron timezone catchUp))
        (fun _ s ↦ unchangedStep cfg ws issue s) V₀ V → OncePerGap occurs V.turns) := by
  refine ⟨fun hcatch ↦ ⟨fun h ↦ ?_, fun h ↦ ?_⟩, fun hno h ↦ ?_⟩
  · exact (turning_of_reach hwhen hfireable hev hfresh h).doubled
  · exact noneLost_of_reach hwhen hfireable hev hfresh hcatch h
  · exact (turning_of_reach hwhen hfireable hev hfresh h).once hno

end Cron

end Watch

/-! ## Runs to evaluate -/

/-- A scanner that ticks every minute, and the schedule of every full hour. -/
def hourConfig : ScanConfig :=
  { sampleConfig with nextCronFire := fun _ after _ ↦ some ((after / 3600000 + 1) * 3600000) }

def hourSchedule : Schedule := .cron "0 * * * *" none none

def FullHour (m : Int) : Prop := m % 3600000 = 0

theorem evaluates_hours : Evaluates hourConfig hourSchedule FullHour where
  next := by
    intro after next h
    cases h
    refine ⟨?_, ?_, fun m hm hlater ↦ ?_⟩
    · omega
    · exact Int.mul_emod_left ..
    · rw [FullHour] at hm
      omega
  last := nofun

theorem unchangedStep_readScan (schedule : Schedule) (nowMs : Int) :
    unchangedStep hourConfig sampleWs (sampleIssue schedule) (readScan schedule nowMs) := by
  refine ⟨[], _, ?_, rfl, ?_, rfl⟩
  · simp [findConnectorDesks, readScan, desksOf, sampleIssue, isConnectorDeskIssue]
  · simp [listed, sampleIssue]

theorem fresh_start : Fresh sampleWs (sampleIssue hourSchedule) { state := {} } := by
  refine ⟨rfl, fun b hb ↦ ?_⟩
  cases hb

def inTime : List Scan := [readScan hourSchedule 3599990, readScan hourSchedule 3650000]

/-- The second scan tries the full hour. -/
theorem cron_occurrences_inTime : ∃ V : Watch,
    V.turns = [⟨3599990, none⟩, ⟨3650000, some ⟨3600000, true⟩⟩] ∧ NoneLost FullHour V.turns := by
  refine ⟨after (watchStep hourConfig sampleWs (sampleIssue hourSchedule) hourSchedule)
    { state := {} } inTime, by decide +kernel, ?_⟩
  refine ((cron_occurrences rfl rfl evaluates_hours fresh_start).1 rfl).2
    (Reach.of_after inTime (by decide +kernel) ?_)
  intro n s hs
  match n, hs with
  | 0, hs =>
    cases hs
    exact ⟨unchangedStep_readScan .., fun hne ↦ (hne rfl).elim⟩
  | 1, hs =>
    cases hs
    refine ⟨unchangedStep_readScan .., fun _ _ m _ hlater ↦ ?_⟩
    have hclock : (after (watchStep hourConfig sampleWs (sampleIssue hourSchedule) hourSchedule)
        { state := {} } (inTime.take 1)).state.clock = 3599990 := by decide +kernel
    exact lt_trans (by decide) (hclock.symm.trans_lt hlater)

def tooLate : List Scan := [readScan hourSchedule 3599990, readScan hourSchedule 3661000]

/-- **A full hour is lost** between the scans of `tooLate`. -/
theorem tooLate_loses : ¬ ∀ (occurs : Int → Prop) (V : Watch),
    Evaluates hourConfig hourSchedule occurs →
      Reach (watchStep hourConfig sampleWs (sampleIssue hourSchedule) hourSchedule)
        (fun _ s ↦ unchangedStep hourConfig sampleWs (sampleIssue hourSchedule) s) { state := {} } V →
          NoneLost occurs V.turns := by
  intro h
  have hrun : Reach (watchStep hourConfig sampleWs (sampleIssue hourSchedule) hourSchedule)
      (fun _ s ↦ unchangedStep hourConfig sampleWs (sampleIssue hourSchedule) s) { state := {} }
      (after (watchStep hourConfig sampleWs (sampleIssue hourSchedule) hourSchedule)
        { state := {} } tooLate) := by
    refine .of_after tooLate (by decide +kernel) fun n s hs ↦ ?_
    match n, hs with
    | 0, hs | 1, hs =>
      cases hs
      exact unchangedStep_readScan ..
  have hturns : (after (watchStep hourConfig sampleWs (sampleIssue hourSchedule) hourSchedule)
      { state := {} } tooLate).turns = [⟨3599990, none⟩, ⟨3661000, none⟩] := by decide +kernel
  have hlost := h FullHour _ evaluates_hours hrun
  rw [hturns] at hlost
  have htried := hlost [⟨3599990, none⟩] ⟨3661000, none⟩ [] rfl ⟨3599990, none⟩ 3600000 rfl rfl
    (by decide) (by decide) ?_
  · exact nomatch htried
  intro t ht hres
  rw [List.mem_singleton.mp ht] at hres
  exact nomatch hres

end OpenAlice.Scheduling
