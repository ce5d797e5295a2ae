import OpenAlice.Run.Basic
import OpenAlice.Trading.Account.Recovery

/-!
# The recovery loop

Two laws of the loop that brings an account back to its target, and what they
rest on.

*Recovery is never abandoned* (`never_abandoned`): a settled account below its
target, or offline, is recovering, with an attempt scheduled or in flight.  A
broker read that succeeds ends recovery without looking at the reach, so the law
holds in the runs whose reads succeed only at the target, and whose attempts
that fall short find recovery still on.

*There is one loop, and none after `close`* (`one_loop`): the handle of the
timeout is cleared before an attempt waits for the broker, so neither a nudge
nor a restart nor `close` sees an attempt in flight.  The law holds in the runs
where none of these meets one.
-/

namespace OpenAlice.Trading.Recovery

open OpenAlice.Run

variable {tier : UTATier} {s s' : State}

/-! ## Reach and health -/

theorem targetReach_ne_down (tier : UTATier) : 0 < tier.targetReach.rank := by
  cases tier <;> decide

theorem health_of_reached (hr : s.reachedTarget tier = true) (hf : s.consecutiveFailures = 0)
    (hd : s.disabled = false) : s.health tier ≠ .offline := by
  have hdown : s.currentReach ≠ .down := by
    intro hc
    have hpos := targetReach_ne_down tier
    rw [State.reachedTarget, hc, decide_eq_true_eq] at hr
    exact absurd hr (Nat.not_le_of_lt hpos)
  simp [State.health, hd, hdown, hf, offlineThreshold, degradedThreshold, hr]

/-! ## What a step does -/

theorem probeStep_eq {p q : Probe} {a : ProbeAnswer} (h : s.probeStep tier p a = some (s', q)) :
    ∃ disabled, s' = { s with disabled } ∧ (s.disabled = true → disabled = true) := by
  unfold State.probeStep at h
  split at h <;> cases h
  · exact ⟨s.disabled, rfl, id⟩
  · exact ⟨_, rfl, fun hd ↦ by simp [hd]⟩
  · exact ⟨s.disabled, rfl, id⟩
  · exact ⟨_, rfl, fun hd ↦ by simp [hd]⟩

variable (tier) in
inductive Stepped (s : State) : Event → State → Prop where
  | connectAnswer (a : ProbeAnswer) (p : Probe) (disabled : Bool) :
    Stepped s (.connectAnswer a) { s with disabled, connect := .probing p }
  | connected (reach : UTAReach) (h : s.connect = .probing (.returned reach)) :
    Stepped s .connected (s.continueConnect tier reach)
  | warmed (h : s.connect = .warming) : Stepped s .warmed (s.finishConnect tier)
  | fire (handle : Nat) {t : Timer} (h : t ∈ s.timers) : Stepped s (.fire handle) (s.fire t)
  | attemptAnswer (i : Nat) (a : ProbeAnswer) (task : Attempt) (disabled : Bool)
    (h : s.disabled = true → disabled = true) :
    Stepped s (.attemptAnswer i a) { s with disabled, attempts := s.attempts.set i task }
  | attempted (i attempt : Nat) (reach : UTAReach)
    (h : s.attempts[i]? = some ⟨attempt, .returned reach⟩) :
    Stepped s (.attempted i)
      (State.finishAttempt tier { s with attempts := s.attempts.eraseIdx i } attempt reach)
  | same (e : Event) : Stepped s e s
  | waits (e : Event) (waiting : Nat) : Stepped s e { s with waiting }
  | reads (e : Event) (waiting : Nat) : Stepped s e (State.beginRead tier { s with waiting })
  | succeeds (reads : Nat) : Stepped s (.answered true) (State.onSuccess { s with reads })
  | fails (reads : Nat) : Stepped s (.answered false) (State.onFailure tier { s with reads })
  | dead : Stepped s .dead s.onDead
  | restored : Stepped s .restored s.nudgeRecovery
  | nudge : Stepped s .nudge s.nudgeRecovery
  | close : Stepped s .close s.close

theorem stepped {e : Event} (hst : step tier s e = some s') : Stepped tier s e s' := by
  cases e with
  | connectAnswer a =>
    simp only [step] at hst
    split at hst
    · obtain ⟨⟨s₁, p⟩, hq, rfl⟩ := Option.map_eq_some_iff.mp hst
      obtain ⟨d, rfl, _⟩ := probeStep_eq hq
      exact .connectAnswer a p d
    · cases hst
  | connected =>
    simp only [step] at hst
    split at hst
    · rename_i reach hc
      cases hst
      exact .connected reach hc
    · cases hst
  | warmed =>
    obtain ⟨hw, hst⟩ := Option.ite_none_right_eq_some.mp hst
    cases hst
    exact .warmed hw
  | fire handle =>
    obtain ⟨t, ht, rfl⟩ := Option.map_eq_some_iff.mp hst
    exact .fire handle (List.mem_of_find?_eq_some ht)
  | attemptAnswer i a =>
    obtain ⟨t, ht, hst⟩ := Option.bind_eq_some_iff.mp hst
    obtain ⟨⟨s₁, p⟩, hq, rfl⟩ := Option.map_eq_some_iff.mp hst
    obtain ⟨d, rfl, hd⟩ := probeStep_eq hq
    exact .attemptAnswer i a _ d hd
  | attempted i =>
    simp only [step] at hst
    split at hst
    · rename_i attempt reach hi
      cases hst
      exact .attempted i attempt reach hi
    · cases hst
  | read =>
    simp only [step] at hst
    split_ifs at hst <;> cases hst
    · exact .same .read
    · exact .waits .read _
    · exact .reads .read s.waiting
  | waited =>
    simp only [step] at hst
    split_ifs at hst <;> cases hst
    · exact .waits .waited _
    · exact .reads .waited _
  | answered ok =>
    obtain ⟨-, hst⟩ := Option.ite_none_left_eq_some.mp hst
    cases hst
    cases ok with
    | false => exact .fails _
    | true => exact .succeeds _
  | dead | restored | alive =>
    simp only [step] at hst
    split_ifs at hst
    cases hst
    constructor
  | nudge | close =>
    cases hst
    constructor

/-! ## Recovery that is on is under way -/

/-- The handle names a live timeout, recovery that is on has one or an attempt in
flight, and the initial connect is probing as long as the account is connecting. -/
structure Armed (s : State) : Prop where
  handle : ∀ h, s.recoveryTimer = some h → ∃ t ∈ s.timers, t.handle = h
  armed : s.recovering = true → s.recoveryTimer ≠ none ∨ s.attempts ≠ []
  early : s.connecting = true → ∃ p, s.connect = .probing p

/-- What `Armed` speaks of did not change. -/
theorem Armed.of_eq (h : Armed s) (hh : s'.recoveryTimer = s.recoveryTimer)
    (ht : s'.timers = s.timers) (hr : s'.recovering = true → s.recovering = true)
    (ha : s.attempts ≠ [] → s'.attempts ≠ [])
    (hc : s'.connecting = true → ∃ p, s'.connect = .probing p) : Armed s' where
  handle k hk := by
    rw [ht]
    exact h.handle k (hh ▸ hk)
  armed hrec := by
    rw [hh]
    exact (h.armed (hr hrec)).imp_right ha
  early := hc

theorem Armed.schedule (hc : s.connecting = true → ∃ p, s.connect = .probing p) (attempt : Nat)
    (delay : Option Nat) : Armed (s.scheduleRecoveryAttempt attempt delay) where
  handle h hh := by
    obtain rfl : s.created = h := Option.some.inj hh
    exact ⟨_, List.mem_append_right _ (List.mem_singleton_self _), rfl⟩
  armed _ := .inl (by simp [State.scheduleRecoveryAttempt])
  early := hc

theorem Armed.start (h : Armed s) : Armed s.startRecovery := by
  unfold State.startRecovery
  split
  · exact h
  · refine .schedule ?_ _ _
    exact h.early

theorem Armed.nudge (h : Armed s) : Armed s.nudgeRecovery := by
  unfold State.nudgeRecovery
  split
  · exact h
  · refine .schedule ?_ _ _
    exact h.early

theorem Armed.off (hh : s.recoveryTimer = none) (hr : s.recovering = false)
    (hc : s.connecting = true → ∃ p, s.connect = .probing p) : Armed s where
  handle k hk := by
    rw [hh] at hk
    cases hk
  armed hrec := by
    rw [hr] at hrec
    cases hrec
  early := hc

theorem Armed.success (hc : s.connecting = true → ∃ p, s.connect = .probing p) :
    Armed s.onSuccess :=
  .off rfl rfl hc

theorem Armed.failure (h : Armed s) : Armed (s.onFailure tier) := by
  have h' : Armed { s with consecutiveFailures := s.consecutiveFailures + 1 } :=
    h.of_eq rfl rfl id id h.early
  unfold State.onFailure
  dsimp only
  split
  · exact h'.start
  · exact h'

theorem Armed.dead (h : Armed s) : Armed s.onDead := by
  have h' : Armed { s with
      currentReach := .down, consecutiveFailures := offlineThreshold } :=
    h.of_eq rfl rfl id id h.early
  unfold State.onDead
  split
  · exact h
  dsimp only
  split
  · exact h'
  · exact h'.start

theorem Armed.close (h : Armed s) : Armed s.close := by
  unfold State.close
  split
  · exact .off rfl rfl h.early
  · exact h.of_eq rfl rfl id id h.early

theorem Armed.finishConnect (h : Armed s) (hc : s.connecting = false) :
    Armed (s.finishConnect tier) := by
  have hno : ∀ {c : Prop}, s.connecting = true → c := fun ht ↦ by simp [hc] at ht
  have h' : Armed { s with connect := .settled } := h.of_eq rfl rfl id id hno
  unfold State.finishConnect
  dsimp only
  split
  · exact h'
  split
  · exact .success hno
  split
  · exact (h'.of_eq rfl rfl id id hno : Armed { s with
      connect := .settled, consecutiveFailures := offlineThreshold }).start
  · exact h'.start

theorem Armed.fire (h : Armed s) (t : Timer) : Armed (s.fire t) where
  handle k hk := by cases hk
  armed _ := .inr (by simp [State.fire])
  early := h.early

theorem Armed.finishAttempt (hc : s.connecting = true → ∃ p, s.connect = .probing p)
    (h : s.disabled = true → Armed { s with recovering := false }) (attempt : Nat)
    (reach : UTAReach) : Armed (s.finishAttempt tier attempt reach) := by
  unfold State.finishAttempt
  dsimp only
  split
  · rename_i hd
    exact (h hd).of_eq rfl rfl id id hc
  split
  · exact .success hc
  · refine .schedule ?_ _ _
    exact hc

theorem Armed.beginRead (h : Armed s) : Armed (s.beginRead tier) := by
  unfold State.beginRead
  split
  · exact h
  · exact h.of_eq rfl rfl id id h.early

theorem step_armed {e : Event} (h : Armed s) (hst : step tier s e = some s') : Armed s' := by
  cases stepped hst with
  | connectAnswer a p d => exact h.of_eq rfl rfl id id fun _ ↦ ⟨p, rfl⟩
  | connected reach =>
    have hno : ∀ {c : Prop}, false = true → c := fun hf ↦ by cases hf
    have h' : Armed { s with currentReach := reach, connecting := false } :=
      h.of_eq rfl rfl id id hno
    unfold State.continueConnect
    dsimp only
    split
    · exact h'.of_eq rfl rfl id id hno
    · exact h'.finishConnect rfl
  | warmed hw =>
    refine h.finishConnect ?_
    by_contra hc
    obtain ⟨p, hp⟩ := h.early (by simpa using hc)
    rw [hw] at hp
    cases hp
  | fire _ _ => exact h.fire _
  | attemptAnswer => exact h.of_eq rfl rfl id (by simp) h.early
  | attempted i attempt reach =>
    refine .finishAttempt ?_ (fun _ ↦ ?_) attempt reach
    · exact h.early
    · exact ⟨h.handle, (fun hf ↦ by cases hf), h.early⟩
  | same => exact h
  | waits => exact h.of_eq rfl rfl id id h.early
  | reads => exact Armed.beginRead (h.of_eq rfl rfl id id h.early)
  | succeeds => exact .success h.early
  | fails => exact Armed.failure (h.of_eq rfl rfl id id h.early)
  | dead => exact h.dead
  | restored | nudge => exact h.nudge
  | close => exact h.close

theorem armed_initial (tier : UTATier) : Armed (State.initial tier) where
  handle h hh := by cases hh
  armed hr := by cases hr
  early _ := ⟨.init, rfl⟩

/-! ## Recovery is never abandoned -/

/-- The states the law speaks of: connected once, not disabled, not closed. -/
structure Live (s : State) : Prop where
  settled : s.connect = .settled
  enabled : s.disabled = false
  opened : s.closed = false

variable (tier) in
/-- Below its target, or offline, a live account is recovering. -/
def Pursued (s : State) : Prop :=
  Live s → s.reachedTarget tier = false ∨ s.health tier = .offline → s.recovering = true

variable (tier) in
/-- **Recovery is never abandoned.**  Below its target, or offline, a live account
is recovering, and an attempt is scheduled or in flight. -/
def NeverAbandoned (s : State) : Prop :=
  Live s → s.reachedTarget tier = false ∨ s.health tier = .offline →
    s.recovering = true ∧ (s.timers ≠ [] ∨ s.attempts ≠ [])

theorem Pursued.neverAbandoned (h : Pursued tier s) (ha : Armed s) : NeverAbandoned tier s := by
  intro hl hlow
  have hrec := h hl hlow
  refine ⟨hrec, ?_⟩
  rcases ha.armed hrec with hh | hatt
  · obtain ⟨k, hk⟩ := Option.ne_none_iff_exists'.mp hh
    obtain ⟨t, ht, _⟩ := ha.handle k hk
    exact .inl (List.ne_nil_of_mem ht)
  · exact .inr hatt

variable (tier) in
/-- A step that does not end recovery early: while the account is live, a read
that succeeds does so at the target, and an attempt that ends below the target
finds recovery still on. -/
def patientStep (s : State) : Event → Prop
  | .answered true => Live s → s.reachedTarget tier = true
  | .attempted i => Live s → ∀ attempt reach, s.attempts[i]? = some ⟨attempt, .returned reach⟩ →
      reach.rank < tier.targetReach.rank → s.recovering = true
  | _ => True

theorem Pursued.of_eq (h : Pursued tier s) (hl : Live s' → Live s)
    (hreach : s'.currentReach = s.currentReach)
    (hfail : s'.consecutiveFailures = s.consecutiveFailures)
    (hr : s.recovering = true → s'.recovering = true) : Pursued tier s' := by
  intro hl' hlow
  refine hr (h (hl hl') ?_)
  have hlive := hl hl'
  simpa [State.reachedTarget, State.health, hreach, hfail, hl'.enabled, hlive.enabled] using hlow

theorem Pursued.of_recovering (h : s.recovering = true) : Pursued tier s := fun _ _ ↦ h

theorem startRecovery_recovering : s.startRecovery.recovering = true := by
  unfold State.startRecovery
  split
  · assumption
  · rfl

theorem Pursued.success (hr : Live s.onSuccess → s.reachedTarget tier = true) :
    Pursued tier s.onSuccess := by
  intro hl hlow
  have hreached : s.onSuccess.reachedTarget tier = true := hr hl
  rcases hlow with hlow | hlow
  · rw [hreached] at hlow
    cases hlow
  · exact absurd hlow (health_of_reached hreached rfl hl.enabled)

theorem Pursued.failure (h : Pursued tier s) : Pursued tier (s.onFailure tier) := by
  unfold State.onFailure
  dsimp only
  split
  · exact .of_recovering startRecovery_recovering
  rename_i hno
  intro hl hlow
  rcases hlow with hlow | hlow
  · exact h ⟨hl.settled, hl.enabled, hl.opened⟩ (.inl hlow)
  · by_contra hrec
    exact hno ⟨hlow, by simpa using hrec⟩

theorem Pursued.finishConnect (s : State) : Pursued tier (s.finishConnect tier) := by
  unfold State.finishConnect
  dsimp only
  split
  · rename_i hd
    intro hl
    rw [hl.enabled] at hd
    cases hd
  split
  · rename_i hr
    exact .success fun _ ↦ hr
  · exact .of_recovering startRecovery_recovering

theorem Pursued.beginRead (h : Pursued tier s) : Pursued tier (s.beginRead tier) := by
  unfold State.beginRead
  split
  · exact h
  · exact h.of_eq (fun hl ↦ ⟨hl.settled, hl.enabled, hl.opened⟩) rfl rfl id

theorem Pursued.nudge (h : Pursued tier s) : Pursued tier s.nudgeRecovery := by
  unfold State.nudgeRecovery
  split
  · exact h
  · exact h.of_eq (fun hl ↦ ⟨hl.settled, hl.enabled, hl.opened⟩) rfl rfl id

theorem step_pursued {e : Event} (ha : Armed s) (h : Pursued tier s) (hok : patientStep tier s e)
    (hst : step tier s e = some s') : Pursued tier s' := by
  have hsame {s' : State} (hl : Live s' → Live s) (hreach : s'.currentReach = s.currentReach)
      (hfail : s'.consecutiveFailures = s.consecutiveFailures)
      (hrec : s'.recovering = s.recovering) : Pursued tier s' :=
    h.of_eq hl hreach hfail fun hr ↦ hrec.trans hr
  cases stepped hst with
  | connectAnswer =>
    intro hl
    cases hl.settled
  | connected =>
    unfold State.continueConnect
    dsimp only
    split
    · intro hl
      cases hl.settled
    · exact .finishConnect _
  | warmed => exact .finishConnect s
  | fire => exact hsame (fun hl ↦ ⟨hl.settled, hl.enabled, hl.opened⟩) rfl rfl rfl
  | attemptAnswer i a task d hd =>
    refine hsame (fun hl ↦ ⟨hl.settled, ?_, hl.opened⟩) rfl rfl rfl
    by_contra hc
    have he : d = false := hl.enabled
    rw [hd (by simpa using hc)] at he
    cases he
  | attempted i attempt reach hi =>
    unfold State.finishAttempt
    dsimp only
    split
    · rename_i hd
      intro hl
      rw [show s.disabled = false from hl.enabled] at hd
      cases hd
    split
    · rename_i hr
      exact .success fun _ ↦ hr
    rename_i hr
    intro hl _
    have hlive : Live s := ⟨hl.settled, hl.enabled, hl.opened⟩
    exact hok hlive attempt reach hi (by simpa [State.reachedTarget] using hr)
  | same => exact h
  | waits => exact hsame (fun hl ↦ ⟨hl.settled, hl.enabled, hl.opened⟩) rfl rfl rfl
  | reads =>
    exact Pursued.beginRead (hsame (fun hl ↦ ⟨hl.settled, hl.enabled, hl.opened⟩) rfl rfl rfl)
  | succeeds => exact .success fun hl ↦ hok ⟨hl.settled, hl.enabled, hl.opened⟩
  | fails =>
    exact Pursued.failure (hsame (fun hl ↦ ⟨hl.settled, hl.enabled, hl.opened⟩) rfl rfl rfl)
  | dead =>
    unfold State.onDead
    split
    · exact h
    dsimp only
    split
    · rename_i hc
      obtain ⟨p, hp⟩ := ha.early hc
      intro hl
      cases hp.symm.trans hl.settled
    · exact .of_recovering startRecovery_recovering
  | restored | nudge => exact h.nudge
  | close =>
    intro hl
    have hc := hl.opened
    unfold State.close at hc
    split at hc <;> cases hc

/-- **Recovery is never abandoned, where it is not ended early.** -/
theorem never_abandoned (h : Reach (step tier) (patientStep tier) (State.initial tier) s) :
    NeverAbandoned tier s := by
  have hI : Armed s ∧ Pursued tier s := by
    refine h.invariant (I := fun s ↦ Armed s ∧ Pursued tier s) ⟨armed_initial tier, ?_⟩ ?_
    · intro hl
      cases hl.settled
    · intro s e s' hs hok hst
      exact ⟨step_armed hs.1 hst, step_pursued hs.1 hs.2 hok hst⟩
  exact hI.2.neverAbandoned hI.1

/-- A funded account whose private read fails at first: it recovers, loses its
transport, and recovers again. -/
theorem never_abandoned_twice : ∃ s,
    Reach (step .trading) (patientStep .trading) (State.initial .trading) s ∧
      s.connect = .settled ∧ s.health .trading = .offline ∧ NeverAbandoned .trading s := by
  have hprobe : Reach (step .trading) (patientStep .trading) (State.initial .trading) _ :=
    .of_exec_of_forall [.connectAnswer .ok, .connectAnswer (.failed false), .connected, .warmed,
      .fire 0, .attemptAnswer 0 .ok, .attemptAnswer 0 .ok] rfl (by simp [patientStep])
  have hback : Reach (step .trading) (patientStep .trading) (State.initial .trading) _ :=
    hprobe.tail (e := Event.attempted 0) (fun _ _ _ _ _ ↦ rfl) rfl
  have hr := hback.trans (.of_exec_of_forall [.dead] rfl (by simp [patientStep]))
  exact ⟨_, hr, rfl, rfl, never_abandoned hr⟩

/-- **A read ends recovery.**  The private read of a funded account fails while
its transport is up, so recovery is scheduled; then an unrelated read succeeds and
cancels it, with the reach still below the target. -/
theorem not_never_abandoned : ¬∀ (tier : UTATier) (s : State),
    Reach (step tier) anyStep (State.initial tier) s → NeverAbandoned tier s := by
  intro hall
  have hr : Reach (step .trading) anyStep (State.initial .trading) _ :=
    .of_exec [.connectAnswer .ok, .connectAnswer (.failed false), .connected, .warmed, .read,
      .answered true] rfl
  obtain ⟨hrec, _⟩ := hall .trading _ hr ⟨rfl, rfl, rfl⟩ (.inl rfl)
  cases hrec

/-! ## One loop, and none after `close` -/

/-- **One recovery loop, and none after `close`.**  At most one attempt is scheduled
or in flight, and after `close` no attempt has called `broker.init`. -/
structure OneLoop (s : State) : Prop where
  one : s.timers.length + s.attempts.length ≤ 1
  late : s.lateInits = 0

structure Single (s : State) : Prop where
  one : s.timers.length + s.attempts.length ≤ 1
  named : ∀ t ∈ s.timers, s.recoveryTimer = some t.handle
  /-- After `close` no timeout is live. -/
  quiet : s.closed = true → s.timers = []
  late : s.lateInits = 0

def Free (s : State) : Prop := s.attempts = [] ∧ s.timers = [] ∧ s.closed = false

variable (tier) in
/-- A step that keeps the loop single.  Recovery is started only while no attempt
is scheduled or in flight, and not after `close`; a nudge that has an effect finds
no attempt in flight; and an attempt falls short only before `close`. -/
def singleStep (s : State) : Event → Prop
  | .nudge | .restored => s.recovering = true → s.disabled = false → s.attempts = []
  | .dead => s.disabled = false → s.connecting = false → s.recovering = false → Free s
  | .answered false =>
    State.health tier { s with consecutiveFailures := s.consecutiveFailures + 1 } = .offline →
      s.recovering = false → Free s
  | .connected => s.connect = .probing (.returned .down) → s.disabled = false →
      s.recovering = false → Free s
  | .warmed => s.disabled = false → s.reachedTarget tier = false → s.recovering = false → Free s
  | .attempted i => ∀ attempt reach, s.attempts[i]? = some ⟨attempt, .returned reach⟩ →
      s.disabled = false → reach.rank < tier.targetReach.rank → s.closed = false
  | _ => True

theorem single_initial (tier : UTATier) : Single (State.initial tier) :=
  ⟨Nat.zero_le 1, (fun _ h ↦ by cases h), fun _ ↦ rfl, rfl⟩

theorem Single.of_eq (h : Single s) (ht : s'.timers = s.timers)
    (hh : s'.recoveryTimer = s.recoveryTimer) (ha : s'.attempts.length ≤ s.attempts.length)
    (hc : s'.closed = s.closed) (hl : s'.lateInits = s.lateInits) : Single s' where
  one := by
    rw [ht]
    exact Nat.le_trans (Nat.add_le_add_left ha _) h.one
  named := by
    rw [ht, hh]
    exact h.named
  quiet := by
    rw [ht, hc]
    exact h.quiet
  late := hl.trans h.late

theorem Single.timersCleared (h : Single s) : s.timersCleared = [] := by
  unfold State.timersCleared
  cases ht : s.recoveryTimer with
  | none =>
    rw [List.eq_nil_iff_forall_not_mem]
    intro t hm
    have hn := h.named t hm
    rw [ht] at hn
    cases hn
  | some k =>
    rw [List.filter_eq_nil_iff]
    intro t hm
    have hn := h.named t hm
    rw [ht] at hn
    simp [Option.some.inj hn]

theorem Single.cleared (h : Single s) (ht : s'.timers = s.timersCleared)
    (ha : s'.attempts = s.attempts) (hl : s'.lateInits = s.lateInits) : Single s' where
  one := by
    rw [ht, h.timersCleared, ha, List.length_nil, Nat.zero_add]
    exact Nat.le_trans (Nat.le_add_left _ _) h.one
  named := by
    rw [ht, h.timersCleared]
    intro t hm
    cases hm
  quiet _ := by rw [ht, h.timersCleared]
  late := hl.trans h.late

theorem Single.schedule (ha : s.attempts = []) (ht : s.timers = []) (hc : s.closed = false)
    (hl : s.lateInits = 0) (attempt : Nat) (delay : Option Nat) :
    Single (s.scheduleRecoveryAttempt attempt delay) where
  one := by simp [State.scheduleRecoveryAttempt, ha, ht]
  named := by simp [State.scheduleRecoveryAttempt, ht]
  quiet hc' := by
    rw [show s.closed = true from hc'] at hc
    cases hc
  late := hl

theorem Single.start (h : Single s) (hf : s.recovering = false → Free s) :
    Single s.startRecovery := by
  unfold State.startRecovery
  split
  · exact h
  rename_i hr
  obtain ⟨ha, ht, hc⟩ := hf (by simpa using hr)
  refine .schedule ?_ ?_ ?_ ?_ _ _
  · exact ha
  · exact ht
  · exact hc
  · exact h.late

/-- A nudge while nothing is in flight replaces the timeout.  After `close` it has
no effect: recovery that is on has a timeout, and none is live. -/
theorem Single.nudge (h : Single s) (ha : Armed s)
    (hok : s.recovering = true → s.disabled = false → s.attempts = []) :
    Single s.nudgeRecovery := by
  unfold State.nudgeRecovery
  split
  · exact h
  rename_i hno
  rw [Bool.or_eq_true, not_or] at hno
  have hr : s.recovering = true := by simpa using hno.1
  have hatt := hok hr (by simpa using hno.2)
  refine .schedule ?_ ?_ ?_ ?_ _ _
  · exact hatt
  · exact h.timersCleared
  · change s.closed = false
    by_contra hc
    have hnone := h.quiet (by simpa using hc)
    rcases ha.armed hr with hh | hh
    · obtain ⟨k, hk⟩ := Option.ne_none_iff_exists'.mp hh
      obtain ⟨t, ht, _⟩ := ha.handle k hk
      rw [hnone] at ht
      cases ht
    · exact hh hatt
  · exact h.late

theorem Single.success (h : Single s) : Single s.onSuccess := h.cleared rfl rfl rfl

theorem Single.failure (h : Single s)
    (hok : State.health tier { s with consecutiveFailures := s.consecutiveFailures + 1 } = .offline →
      s.recovering = false → Free s) : Single (s.onFailure tier) := by
  have h' : Single { s with consecutiveFailures := s.consecutiveFailures + 1 } :=
    h.of_eq rfl rfl (Nat.le_refl _) rfl rfl
  unfold State.onFailure
  dsimp only
  split
  · rename_i ho
    exact h'.start fun hr ↦ hok ho.1 hr
  · exact h'

theorem Single.dead (h : Single s) (hok : s.disabled = false → s.connecting = false →
    s.recovering = false → Free s) : Single s.onDead := by
  have h' : Single { s with
      currentReach := .down, consecutiveFailures := offlineThreshold } :=
    h.of_eq rfl rfl (Nat.le_refl _) rfl rfl
  unfold State.onDead
  split
  · exact h
  rename_i hd
  dsimp only
  split
  · exact h'
  · rename_i hc
    exact h'.start fun hr ↦ hok (by simpa using hd) (by simpa using hc) hr

theorem Single.close (h : Single s) : Single s.close := by
  unfold State.close
  split
  · exact h.cleared rfl rfl rfl
  rename_i hh
  have hnone : s.timers = [] := by
    rw [List.eq_nil_iff_forall_not_mem]
    intro t hm
    have hn := h.named t hm
    rw [hh] at hn
    cases hn
  exact ⟨h.one, h.named, fun _ ↦ hnone, h.late⟩

theorem Single.finishConnect (h : Single s) (hok : s.disabled = false →
    s.reachedTarget tier = false → s.recovering = false → Free s) :
    Single (s.finishConnect tier) := by
  have h' : Single { s with connect := .settled } := h.of_eq rfl rfl (Nat.le_refl _) rfl rfl
  unfold State.finishConnect
  dsimp only
  split
  · exact h'
  rename_i hd
  split
  · exact h'.success
  rename_i hr
  have hfree : s.recovering = false → Free s :=
    hok (by simpa using hd) (by simpa [State.reachedTarget] using hr)
  split
  · exact (h'.of_eq rfl rfl (Nat.le_refl _) rfl rfl : Single { s with
      connect := .settled, consecutiveFailures := offlineThreshold }).start hfree
  · exact h'.start hfree

theorem Single.fire (h : Single s) {t : Timer} (ht : t ∈ s.timers) : Single (s.fire t) := by
  have hlen : s.timers = [t] ∧ s.attempts = [] := by
    have hone := h.one
    match hts : s.timers with
    | [] =>
      rw [hts] at ht
      cases ht
    | [u] =>
      rw [hts] at ht hone
      rw [List.length_singleton] at hone
      exact ⟨by rw [List.mem_singleton.mp ht], List.eq_nil_of_length_eq_zero (by omega)⟩
    | u :: v :: l =>
      rw [hts] at hone
      simp only [List.length_cons] at hone
      omega
  have hopen : s.closed = false := by
    by_contra hc
    have hnone := h.quiet (by simpa using hc)
    rw [hnone] at ht
    cases ht
  refine ⟨?_, ?_, ?_, ?_⟩
  · simp [State.fire, hlen.1, hlen.2]
  · simp [State.fire, hlen.1]
  · simp [State.fire, hlen.1]
  · simp [State.fire, hopen, h.late]

/-- The end of an attempt: it is in flight no more, and is scheduled again only
before `close`. -/
theorem Single.finishAttempt (h : Single s) {i : Nat} (hi : i < s.attempts.length) {attempt : Nat}
    {reach : UTAReach} (hok : s.disabled = false → reach.rank < tier.targetReach.rank →
      s.closed = false) :
    Single (State.finishAttempt tier { s with attempts := s.attempts.eraseIdx i } attempt
      reach) := by
  have hlen : s.timers = [] ∧ s.attempts.eraseIdx i = [] := by
    have hone := h.one
    have herase := List.length_eraseIdx_of_lt hi
    exact ⟨List.eq_nil_of_length_eq_zero (by omega), List.eq_nil_of_length_eq_zero (by omega)⟩
  have h' : Single { s with attempts := s.attempts.eraseIdx i, currentReach := reach } :=
    h.of_eq rfl rfl (by simp [hlen.2]) rfl rfl
  unfold State.finishAttempt
  dsimp only
  split
  · exact h'.of_eq rfl rfl (Nat.le_refl _) rfl rfl
  rename_i hd
  split
  · exact h'.success
  rename_i hr
  refine .schedule ?_ ?_ ?_ ?_ _ _
  · exact hlen.2
  · exact hlen.1
  · exact hok (by simpa using hd) (by simpa [State.reachedTarget] using hr)
  · exact h.late

theorem Single.beginRead (h : Single s) : Single (s.beginRead tier) := by
  unfold State.beginRead
  split
  · exact h
  · exact h.of_eq rfl rfl (Nat.le_refl _) rfl rfl

theorem step_single {e : Event} (ha : Armed s) (h : Single s) (hok : singleStep tier s e)
    (hst : step tier s e = some s') : Single s' := by
  cases stepped hst with
  | connectAnswer => exact h.of_eq rfl rfl (Nat.le_refl _) rfl rfl
  | connected reach hc =>
    have h' : Single { s with currentReach := reach, connecting := false } :=
      h.of_eq rfl rfl (Nat.le_refl _) rfl rfl
    unfold State.continueConnect
    dsimp only
    split
    · exact h'.of_eq rfl rfl (Nat.le_refl _) rfl rfl
    rename_i hdown
    refine h'.finishConnect ?_
    intro hd _ hrec
    have hd : s.disabled = false := hd
    simp only [hd, Bool.not_false, Bool.true_and, decide_eq_true_eq, ne_eq, not_not] at hdown
    subst hdown
    exact hok hc hd hrec
  | warmed => exact h.finishConnect hok
  | fire _ ht => exact h.fire ht
  | attemptAnswer => exact h.of_eq rfl rfl (by simp) rfl rfl
  | attempted i attempt reach hi =>
    exact h.finishAttempt (List.getElem?_eq_some_iff.mp hi).1 (hok attempt reach hi)
  | same => exact h
  | waits => exact h.of_eq rfl rfl (Nat.le_refl _) rfl rfl
  | reads => exact Single.beginRead (h.of_eq rfl rfl (Nat.le_refl _) rfl rfl)
  | succeeds => exact Single.success (h.of_eq rfl rfl (Nat.le_refl _) rfl rfl)
  | fails => exact Single.failure (h.of_eq rfl rfl (Nat.le_refl _) rfl rfl) hok
  | dead => exact h.dead hok
  | restored | nudge => exact h.nudge ha hok
  | close => exact h.close

/-- **One recovery loop, and none after `close`, where nothing meets an attempt in
flight.** -/
theorem one_loop (h : Reach (step tier) (singleStep tier) (State.initial tier) s) : OneLoop s := by
  have hI : Armed s ∧ Single s := by
    refine h.invariant (I := fun s ↦ Armed s ∧ Single s)
      ⟨armed_initial tier, single_initial tier⟩ ?_
    intro s e s' hs hok hst
    exact ⟨step_armed hs.1 hst, step_single hs.1 hs.2 hok hst⟩
  exact ⟨hI.2.one, hI.2.late⟩

/-- An account that was unreachable is nudged, falls short once more, and is
closed while an attempt is scheduled. -/
theorem one_loop_nudged : ∃ s,
    Reach (step .trading) (singleStep .trading) (State.initial .trading) s ∧
      s.closed = true ∧ s.recovering = false ∧ OneLoop s := by
  have hprobe : Reach (step .trading) (singleStep .trading) (State.initial .trading) _ :=
    .of_exec_of_forall [.connectAnswer (.failed false)] rfl (by simp [singleStep])
  have hdown : Reach (step .trading) (singleStep .trading) (State.initial .trading) _ :=
    hprobe.tail (e := Event.connected) (fun _ _ _ ↦ ⟨rfl, rfl, rfl⟩) rfl
  have hnudged : Reach (step .trading) (singleStep .trading) (State.initial .trading) _ :=
    hdown.tail (e := Event.nudge) (fun _ _ ↦ rfl) rfl
  have hfired := hnudged.trans (.of_exec_of_forall
    [.fire 1, .attemptAnswer 0 .ok, .attemptAnswer 0 (.failed false)] rfl (by simp [singleStep]))
  have hshort : Reach (step .trading) (singleStep .trading) (State.initial .trading) _ :=
    hfired.tail (e := Event.attempted 0) (fun _ _ _ _ _ ↦ rfl) rfl
  have hr := hshort.trans (.of_exec_of_forall [.close] rfl (by simp [singleStep]))
  exact ⟨_, hr, rfl, rfl, one_loop hr⟩

/-- **A nudge during the probe starts a second loop.**  The handle of the timeout
was cleared when the attempt began, so the nudge schedules another attempt next to
the one in flight. -/
theorem not_one_loop : ¬∀ (tier : UTATier) (s : State),
    Reach (step tier) anyStep (State.initial tier) s → OneLoop s := by
  intro hall
  have hr : Reach (step .trading) anyStep (State.initial .trading) _ :=
    .of_exec [.connectAnswer (.failed false), .connected, .fire 0, .nudge] rfl
  have hone := (hall .trading _ hr).one
  exact absurd hone (by decide)

end OpenAlice.Trading.Recovery
