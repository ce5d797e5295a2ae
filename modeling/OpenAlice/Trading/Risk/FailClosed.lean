import OpenAlice.Trading.Risk.RateLimits

/-!
# Pauses and consumed slots are not forgotten

A pause is a field of the state, and so are the slots.  The state is replaced as a
whole when `load` resolves, by what the file had; a `resetPause` clears the pause
before it has completed; a check that has passed the test for a pause is not stopped
by a later one; and a controller that has just been built has nothing yet of what
its file says.  `steadfastStep` is the condition that none of this meets a pause or a
slot in effect.
-/

namespace OpenAlice.Trading.Risk

open OpenAlice.Run

/-- The controller has been paused, and no `resetPause` has completed since. -/
def isClosed (history : List Note) : Bool :=
  history.foldl (fun closed note ↦
    match note with
    | .paused => true
    | .resumed => false
    | _ => closed) false

/-- Nothing is admitted after a pause, and a check counts every slot of its day. -/
def Fine (before : List Note) : Note → Prop
  | .admitted _ => isClosed before = false
  | .counted now slots => (onDay (dayOf now) (consumed before)).Sublist slots
  | _ => True

/-- **The controller fails closed**: at every point of its history. -/
def FailsClosed (history : List Note) : Prop :=
  ∀ before note later, history = before ++ note :: later → Fine before note

theorem failsClosed_nil : FailsClosed [] := by
  intro before note later h
  simp at h

theorem FailsClosed.concat {history : List Note} (h : FailsClosed history) {note : Note}
    (hnote : Fine history note) : FailsClosed (history ++ [note]) := by
  intro before note' later he
  rcases List.eq_nil_or_concat later with rfl | ⟨later', last, rfl⟩
  · obtain ⟨rfl, hlast⟩ := List.append_inj' he rfl
    cases hlast
    exact hnote
  have he' : history ++ [note] = (before ++ note' :: later') ++ [last] := by simpa using he
  obtain ⟨rfl, _⟩ := List.append_inj' he' rfl
  exact h before note' later' rfl

theorem isClosed_concat (history : List Note) (note : Note) : isClosed (history ++ [note]) =
      match note with
      | .paused => true
      | .resumed => false
      | _ => isClosed history := by
  rw [isClosed, List.foldl_append]
  rfl

theorem consumed_concat (history : List Note) (note : Note) : consumed (history ++ [note]) =
      match note with
      | .admitted now => consumed history ++ [now]
      | _ => consumed history := by
  rw [consumed_append]
  cases note with
  | admitted now => rfl
  | _ => exact List.append_nil _

/-! ## What is under way -/

def Under (kind : RiskTask → Bool) (W : RiskWorld) : Prop :=
  ∃ (i : Nat) (k : RiskTask), W.tasks[i]? = some k ∧ kind k = true

/-- A `load` waiting for its file. -/
def isLoading : RiskTask → Bool
  | .loading => true
  | _ => false

def isReading : RiskTask → Bool
  | .reading .. => true
  | _ => false

/-- A `resetPause` in its `persist`. -/
def isResetting : RiskTask → Bool
  | .mkdir .reset | .writing _ .reset => true
  | _ => false

def reachesTest : RiskTask → RiskAnswer → Bool
  | .rolled _, .resumed => true
  | .writing _ (.gate _), .wrote => true
  | _, _ => false

variable {cfg : RiskConfig} {W W' : RiskWorld} {S S' : Shared} {kind : RiskTask → Bool}

theorem under_iff_any : Under kind W ↔ W.tasks.any kind = true := by
  rw [List.any_eq_true]
  constructor
  · rintro ⟨i, k, hi, hk⟩
    exact ⟨k, List.mem_of_getElem? hi, hk⟩
  rintro ⟨k, hmem, hk⟩
  obtain ⟨i, hi⟩ := List.mem_iff_getElem?.mp hmem
  exact ⟨i, k, hi, hk⟩

instance : Decidable (Under kind W) := decidable_of_iff' _ under_iff_any

theorem under_append {k : RiskTask} :
    Under kind ⟨S', W.tasks ++ [k]⟩ ↔ Under kind W ∨ kind k = true := by
  constructor
  · rintro ⟨i, k', hi, hk'⟩
    rcases World.task_append hi with hi | ⟨_, rfl⟩
    · exact .inl ⟨i, k', hi, hk'⟩
    · exact .inr hk'
  rintro (⟨i, k', hi, hk'⟩ | hk)
  · exact ⟨i, k', by rw [List.getElem?_append_left (List.getElem?_eq_some_iff.mp hi).1, hi], hk'⟩
  · exact ⟨W.tasks.length, k, by simp, hk⟩

variable {i : Nat}

theorem under_set {k' : RiskTask} (h : Under kind ⟨S', W.tasks.set i k'⟩) :
    Under kind W ∨ kind k' = true := by
  obtain ⟨j, k₁, hj, hk₁⟩ := h
  rcases World.task_set hj with ⟨_, rfl⟩ | ⟨_, hj⟩
  · exact .inr hk₁
  · exact .inl ⟨j, k₁, hj, hk₁⟩

variable {k k' : RiskTask}

theorem Under.set (h : Under kind W) (hi : W.tasks[i]? = some k)
    (hk : kind k = true → kind k' = true) : Under kind ⟨S', W.tasks.set i k'⟩ := by
  obtain ⟨j, k₁, hj, hk₁⟩ := h
  by_cases hji : j = i
  · subst hji
    cases hj.symm.trans hi
    exact ⟨j, k', by simp [(List.getElem?_eq_some_iff.mp hi).1], hk hk₁⟩
  · exact ⟨j, k₁, (List.getElem?_set_ne (Ne.symm hji)).trans hj, hk₁⟩

/-! ## The conditions on the steps -/

def pauseStep (cfg : RiskConfig) (W : RiskWorld) : RiskEvent → Prop
  | .run _ (.call c) => Pauses cfg W.shared c → ¬ Under isReading W
  | _ => True

/-- A check that comes to the test for a pause with the controller paused finds the
pause in the state, or no `load` and no `resetPause` is under way. -/
def gateStep (W : RiskWorld) : RiskEvent → Prop
  | .run _ (.resume i a) => ∀ k, W.tasks[i]? = some k → reachesTest k a = true →
      isClosed W.shared.history = true →
        W.shared.state.paused = true ∨ ¬ Under isLoading W ∧ ¬ Under isResetting W
  | _ => True

def todaySlots (now : Timestamp) (history : List Note) : List Timestamp :=
  onDay (dayOf now) (consumed history)

/-- A check that gets its answers from the broker while a `load` is under way finds
today's slots in the state. -/
def judgeStep (W : RiskWorld) : RiskEvent → Prop
  | .run now (.resume _ (.market ..)) => Under isLoading W →
      (todaySlots now W.shared.history).Sublist W.shared.state.orderTimestamps
  | _ => True

/-- What `load` puts in the place of the state, the file or the state itself when there
is none, has the pause and today's slots that are in effect. -/
def loadStep (W : RiskWorld) : RiskEvent → Prop
  | .run now (.resume i .read) => W.tasks[i]? = some .loading →
      let state := W.shared.disk.getD W.shared.state
      (isClosed W.shared.history = true → state.paused = true ∨ Under isResetting W) ∧
        (state.day = dayOf now → (todaySlots now W.shared.history).Sublist state.orderTimestamps) ∧
        (state.day ≠ dayOf now → todaySlots now W.shared.history = [])
  | _ => True

/-- The writes of a `resetPause` succeed. -/
def resetStep (W : RiskWorld) : RiskEvent → Prop
  | .run _ (.resume i (.threw _)) => ∀ k, W.tasks[i]? = some k → isResetting k = false
  | _ => True

def steadfastStep (cfg : RiskConfig) (W : RiskWorld) (e : RiskEvent) : Prop :=
  pauseStep cfg W e ∧ gateStep W e ∧ judgeStep W e ∧ loadStep W e ∧ resetStep W e ∧ sameDayStep W e

/-! ## What is kept -/

/-- The state stands for the history, but for what is under way. -/
structure Steadfast (W : RiskWorld) : Prop where
  history : FailsClosed W.shared.history
  paused : isClosed W.shared.history = true →
    W.shared.state.paused = true ∨ Under isResetting W ∨ Under isLoading W
  /-- A check past the test for a pause went there rightly. -/
  reading : Under isReading W → isClosed W.shared.history = false
  slots : ¬ Under isLoading W →
    (onDay W.shared.state.day (consumed W.shared.history)).Sublist W.shared.state.orderTimestamps ∧
      ∀ at₀ ∈ consumed W.shared.history, dayOf at₀ ≤ W.shared.state.day
  day : W.shared.state.day ≤ dayOf W.shared.clock
  past : ∀ at₀ ∈ consumed W.shared.history, at₀ ≤ W.shared.clock

theorem under_boot : Under kind (boot S) ↔ kind .loading = true := by
  constructor
  · rintro ⟨i, k, hi, hk⟩
    cases i with
    | zero =>
      cases hi
      exact hk
    | succ i => cases hi
  · exact fun hk ↦ ⟨0, .loading, rfl, hk⟩

/-- **A restart** forgets nothing before its `load` resolves. -/
theorem steadfast_boot (hhistory : FailsClosed S.history)
    (hpast : ∀ at₀ ∈ consumed S.history, at₀ ≤ S.clock) : Steadfast (boot S) where
  history := hhistory
  paused _ := .inr (.inr (under_boot.mpr rfl))
  reading h := Bool.noConfusion (under_boot.mp h)
  slots h := absurd (under_boot.mpr rfl) h
  day := Nat.le_refl _
  past := hpast

theorem Steadfast.tick (h : Steadfast W) {now : Timestamp} (hnow : W.shared.clock ≤ now) :
    Steadfast (tick W now) where
  history := h.history
  paused := h.paused
  reading := h.reading
  slots := h.slots
  day := h.day.trans (dayOf_le hnow)
  past at₀ ha := (h.past at₀ ha).trans hnow

theorem onDay_later {slots : List Timestamp} {day day' : Nat}
    (h : ∀ at₀ ∈ slots, dayOf at₀ ≤ day) (hday : day < day') : onDay day' slots = [] := by
  refine List.filter_eq_nil_iff.mpr fun at₀ ha ↦ ?_
  simp only [decide_eq_true_eq]
  exact ((h at₀ ha).trans_lt hday).ne

theorem Steadfast.today (h : Steadfast W) (hjudge : Under isLoading W →
      (todaySlots W.shared.clock W.shared.history).Sublist W.shared.state.orderTimestamps) :
    (todaySlots W.shared.clock W.shared.history).Sublist W.shared.state.orderTimestamps := by
  by_cases hl : Under isLoading W
  · exact hjudge hl
  obtain ⟨hslots, hdays⟩ := h.slots hl
  rcases Nat.eq_or_lt_of_le h.day with hday | hday
  · rw [todaySlots, ← hday]
    exact hslots
  · rw [todaySlots, onDay_later hdays hday]
    exact List.nil_sublist _

theorem Steadfast.open (h : Steadfast W) (hl : ¬ Under isLoading W) (hr : ¬ Under isResetting W)
    (hpaused : W.shared.state.paused = false) : isClosed W.shared.history = false := by
  rw [← Bool.not_eq_true]
  intro hclosed
  rcases h.paused hclosed with hp | hu | hu
  · exact Bool.noConfusion (hpaused.symm.trans hp)
  · exact hr hu
  · exact hl hu

theorem Steadfast.keep (h : Steadfast W) (hhistory : FailsClosed S'.history)
    (hclosed : isClosed S'.history = isClosed W.shared.history)
    (hconsumed : consumed S'.history = consumed W.shared.history)
    (hpaused : S'.state.paused = W.shared.state.paused)
    (hslots : S'.state.orderTimestamps = W.shared.state.orderTimestamps)
    (hday : S'.state.day = W.shared.state.day) (hclock : S'.clock = W.shared.clock) :
    Steadfast ⟨S', W.tasks⟩ where
  history := hhistory
  paused := by
    show isClosed S'.history = true → S'.state.paused = true ∨ _
    rw [hclosed, hpaused]
    exact h.paused
  reading := by
    show _ → isClosed S'.history = false
    rw [hclosed]
    exact h.reading
  slots := by
    show _ → (onDay S'.state.day (consumed S'.history)).Sublist S'.state.orderTimestamps ∧
      ∀ at₀ ∈ consumed S'.history, dayOf at₀ ≤ S'.state.day
    rw [hconsumed, hslots, hday]
    exact h.slots
  day := by
    show S'.state.day ≤ dayOf S'.clock
    rw [hday, hclock]
    exact h.day
  past := by
    show ∀ at₀ ∈ consumed S'.history, at₀ ≤ S'.clock
    rw [hconsumed, hclock]
    exact h.past

theorem Steadfast.append (h : Steadfast W) {k : RiskTask} (hread : isReading k = false) :
    Steadfast ⟨W.shared, W.tasks ++ [k]⟩ where
  history := h.history
  paused hclosed := by
    rcases h.paused hclosed with hp | hu | hu
    · exact .inl hp
    · exact .inr (.inl (under_append.mpr (.inl hu)))
    · exact .inr (.inr (under_append.mpr (.inl hu)))
  reading hu := h.reading ((under_append.mp hu).resolve_right (by simp [hread]))
  slots hl := h.slots fun hl' ↦ hl (under_append.mpr (.inl hl'))
  day := h.day
  past := h.past

theorem Steadfast.move (h : Steadfast W) (hi : W.tasks[i]? = some k)
    (hload : isLoading k = false) (hreset : isResetting k = true → isResetting k' = true)
    (hread : isReading k' = true → isClosed W.shared.history = false) :
    Steadfast ⟨W.shared, W.tasks.set i k'⟩ where
  history := h.history
  paused hclosed := by
    rcases h.paused hclosed with hp | hu | hu
    · exact .inl hp
    · exact .inr (.inl (hu.set hi hreset))
    · exact .inr (.inr (hu.set hi (by simp [hload])))
  reading hu := (under_set hu).elim h.reading hread
  slots hl := h.slots fun hl' ↦ hl (hl'.set hi (by simp [hload]))
  day := h.day
  past := h.past

/-! ## Every step -/

theorem Steadfast.opens (h : Steadfast W) {c : RiskCall} {k : RiskTask}
    (hpause : Pauses cfg W.shared c → ¬ Under isReading W) (ho : Opens cfg W.shared c S' k) :
    Steadfast ⟨S', W.tasks ++ [k]⟩ := by
  cases ho with
  | rolls hday =>
    have hlater : W.shared.state.day < dayOf W.shared.clock := Nat.lt_of_le_of_ne h.day hday
    have hrolled : Steadfast ⟨{ W.shared with state := newDay W.shared }, W.tasks⟩ := by
      refine ⟨h.history, h.paused, h.reading, ?_, Nat.le_refl _, h.past⟩
      intro hl
      have hdays := (h.slots hl).2
      refine ⟨?_, fun at₀ ha ↦ (hdays at₀ ha).trans hlater.le⟩
      show (onDay (dayOf W.shared.clock) (consumed W.shared.history)).Sublist []
      rw [onDay_later hdays hlater]
    exact hrolled.append rfl
  | waits hday => exact h.append rfl
  | @pauses _ n reason hc =>
    have hpaused : Steadfast ⟨{ W.shared with
        state := { W.shared.state with consecutiveErrors := n, paused := true, pauseReason := reason }
        history := W.shared.history ++ [.paused] }, W.tasks⟩ := by
      refine ⟨h.history.concat trivial, fun _ ↦ .inl rfl, fun hu ↦ absurd hu (hpause hc), ?_, h.day, ?_⟩
      · show _ → (onDay _ (consumed (W.shared.history ++ [.paused]))).Sublist _ ∧
          ∀ at₀ ∈ consumed (W.shared.history ++ [.paused]), _
        rw [consumed_concat]
        exact h.slots
      show ∀ at₀ ∈ consumed (W.shared.history ++ [.paused]), at₀ ≤ W.shared.clock
      rw [consumed_concat]
      exact h.past
    exact hpaused.append rfl
  | resets =>
    refine ⟨h.history, fun _ ↦ .inr (.inl (under_append.mpr (.inr rfl))), ?_, ?_, h.day, h.past⟩
    · exact fun hu ↦ h.reading ((under_append.mp hu).resolve_right (by simp [isReading]))
    · exact fun hl ↦ h.slots fun hl' ↦ hl (under_append.mpr (.inl hl'))
  | @counts _ n _ hk hc =>
    have hcounted : Steadfast ⟨{ W.shared with
        state := { W.shared.state with consecutiveErrors := n } }, W.tasks⟩ :=
      h.keep h.history rfl rfl rfl rfl rfl rfl
    rcases hk with rfl | rfl <;> exact hcounted.append rfl

/-- A check behind its `rollDay`. -/
theorem Steadfast.passes (h : Steadfast W) (hi : W.tasks[i]? = some k)
    (hload : isLoading k = false) (hreset : isResetting k = false)
    (hgate : isClosed W.shared.history = true →
      W.shared.state.paused = true ∨ ¬ Under isLoading W ∧ ¬ Under isResetting W)
    (hk : Passes W.shared k') : Steadfast ⟨W.shared, W.tasks.set i k'⟩ := by
  cases hk with
  | settled => exact h.move hi hload (by simp [hreset]) (by simp [isReading])
  | goes hpaused =>
    refine h.move hi hload (by simp [hreset]) fun _ ↦ ?_
    rw [← Bool.not_eq_true]
    intro hclosed
    rcases hgate hclosed with hp | ⟨hl, hr⟩
    · exact Bool.noConfusion (hpaused.symm.trans hp)
    · exact Bool.noConfusion ((h.open hl hr hpaused).symm.trans hclosed)

theorem Steadfast.loads (h : Steadfast W) (hi : W.tasks[i]? = some .loading)
    (hok : loadStep W (.run W.shared.clock (.resume i .read))) :
    Steadfast ⟨(loaded W.shared).1, W.tasks.set i (loaded W.shared).2⟩ := by
  obtain ⟨hpaused, hsame, hother⟩ := hok hi
  have hmoved : ∀ (state : PersistedState) (k : RiskTask),
      (state.paused = (W.shared.disk.getD W.shared.state).paused) → state.day = dayOf W.shared.clock →
      (todaySlots W.shared.clock W.shared.history).Sublist state.orderTimestamps →
      isReading k = false → Steadfast ⟨{ W.shared with state }, W.tasks.set i k⟩ := by
    intro state k hp hday hslots hk
    refine ⟨h.history, ?_, ?_, ?_, ?_, h.past⟩
    · intro hclosed
      rcases hpaused hclosed with hloaded | hu
      · exact .inl (hp.trans hloaded)
      · exact .inr (.inl (hu.set hi (by simp [isResetting])))
    · exact fun hu ↦ h.reading ((under_set hu).resolve_right (by simp [hk]))
    · intro _
      show (onDay state.day _).Sublist state.orderTimestamps ∧ ∀ at₀ ∈ _, _ ≤ state.day
      rw [hday]
      exact ⟨hslots, fun at₀ ha ↦ dayOf_le (h.past at₀ ha)⟩
    · show state.day ≤ dayOf W.shared.clock
      rw [hday]
  simp only [loaded, rollDay]
  split
  · rename_i state hstate
    split at hstate
    · cases hstate
    rename_i hday
    cases hstate
    refine hmoved _ _ rfl rfl ?_ rfl
    rw [hother hday]
  · rename_i hstate
    split at hstate
    · rename_i hday
      exact hmoved _ _ rfl hday (hsame hday) rfl
    · cases hstate

theorem Steadfast.admits (h : Steadfast W) {contract : Contract} {order : Order}
    (hi : W.tasks[i]? = some (.reading contract order))
    (hday : W.shared.state.day = dayOf W.shared.clock)
    (htoday : (todaySlots W.shared.clock W.shared.history).Sublist W.shared.state.orderTimestamps)
    {equity realized : Option Decimal} :
    Steadfast ⟨{ W.shared with
      state := { W.shared.state with
        openingNetLiquidation := equity, openingRealizedPnL := realized
        orderTimestamps := W.shared.state.orderTimestamps ++ [W.shared.clock] }
      history := W.shared.history ++
        [.counted W.shared.clock W.shared.state.orderTimestamps, .admitted W.shared.clock] },
      W.tasks.set i (.mkdir .settle)⟩ := by
  have hclosed := h.reading ⟨i, _, hi, rfl⟩
  have hconsumed : consumed (W.shared.history ++
      [.counted W.shared.clock W.shared.state.orderTimestamps, .admitted W.shared.clock]) =
        consumed W.shared.history ++ [W.shared.clock] := by
    rw [List.append_cons, consumed_concat, consumed_concat]
  have hstill : isClosed (W.shared.history ++
      [.counted W.shared.clock W.shared.state.orderTimestamps, .admitted W.shared.clock]) = false := by
    rw [List.append_cons, isClosed_concat, isClosed_concat]
    exact hclosed
  refine ⟨?_, ?_, ?_, ?_, h.day, ?_⟩
  · show FailsClosed (W.shared.history ++ [_, _])
    rw [List.append_cons]
    have hfine : Fine W.shared.history (.counted W.shared.clock W.shared.state.orderTimestamps) :=
      htoday
    refine (h.history.concat hfine).concat ?_
    show isClosed _ = false
    rw [isClosed_concat]
    exact hclosed
  · intro hclosed'
    exact Bool.noConfusion (hstill.symm.trans hclosed')
  · exact fun _ ↦ hstill
  · intro hl
    obtain ⟨hslots, hdays⟩ := h.slots fun hl' ↦ hl (hl'.set hi (by simp [isLoading]))
    show (onDay W.shared.state.day (consumed _)).Sublist (W.shared.state.orderTimestamps ++ [W.shared.clock]) ∧
      ∀ at₀ ∈ consumed _, dayOf at₀ ≤ W.shared.state.day
    rw [hconsumed]
    constructor
    · rw [onDay, List.filter_append]
      exact hslots.append List.filter_sublist
    intro at₀ ha
    rcases List.mem_append.mp ha with ha | ha
    · exact hdays at₀ ha
    · rw [List.mem_singleton.mp ha, hday]
  · show ∀ at₀ ∈ consumed _, at₀ ≤ W.shared.clock
    rw [hconsumed]
    intro at₀ ha
    rcases List.mem_append.mp ha with ha | ha
    · exact h.past at₀ ha
    · rw [List.mem_singleton.mp ha]

theorem Steadfast.resumes (h : Steadfast W) {a : RiskAnswer}
    (hi : W.tasks[i]? = some k) (hok : steadfastStep cfg W (.run W.shared.clock (.resume i a)))
    (hr : Resumes cfg W.shared k a S' k') : Steadfast ⟨S', W.tasks.set i k'⟩ := by
  obtain ⟨_, hgate, hjudge, hload, hreset, hsame⟩ := hok
  cases hr with
  | loads => exact h.loads hi hload
  | passes hk => exact h.passes hi rfl rfl (hgate _ hi rfl) hk
  | @passesLater content op _ hk =>
    have hwrote : Steadfast ⟨{ W.shared with disk := some content }, W.tasks⟩ :=
      h.keep h.history rfl rfl rfl rfl rfl rfl
    refine hwrote.passes hi rfl rfl (hgate _ hi rfl) ?_
    cases hk with
    | settled => exact .settled
    | goes hpaused => exact .goes hpaused
  | @denies _ _ a equity realized notes _ hnotes =>
    have hdenied : Steadfast ⟨{ W.shared with
        state := { W.shared.state with openingNetLiquidation := equity, openingRealizedPnL := realized }
        history := W.shared.history ++ notes }, W.tasks⟩ := by
      rcases hnotes with rfl | ⟨rfl, _, _, _, rfl⟩
      · simp only [List.append_nil]
        exact h.keep h.history rfl rfl rfl rfl rfl rfl
      have hfine : Fine W.shared.history (.counted W.shared.clock W.shared.state.orderTimestamps) :=
        h.today hjudge
      exact h.keep (h.history.concat hfine) (isClosed_concat ..) (consumed_concat ..) rfl rfl rfl rfl
    exact hdenied.move hi rfl (by simp [isResetting]) (by simp [isReading])
  | admits hhour hcount => exact h.admits hi (hsame _ _ _ _ _ hi rfl) (h.today hjudge)
  | @makes k =>
    refine h.move hi rfl ?_ (by simp [isReading])
    cases k <;> simp [isResetting]
  | @resumes content =>
    have hopen : isClosed (W.shared.history ++ [.resumed]) = false := isClosed_concat ..
    refine ⟨h.history.concat trivial, ?_, ?_, ?_, h.day, ?_⟩
    · exact fun hclosed ↦ Bool.noConfusion (hopen.symm.trans hclosed)
    · exact fun _ ↦ hopen
    · intro hl
      show (onDay _ (consumed (W.shared.history ++ [.resumed]))).Sublist _ ∧
        ∀ at₀ ∈ consumed (W.shared.history ++ [.resumed]), _
      rw [consumed_concat]
      exact h.slots fun hl' ↦ hl (hl'.set hi (by simp [isLoading]))
    · show ∀ at₀ ∈ consumed (W.shared.history ++ [.resumed]), at₀ ≤ W.shared.clock
      rw [consumed_concat]
      exact h.past
  | @writes content =>
    have hwrote : Steadfast ⟨{ W.shared with disk := some content }, W.tasks⟩ :=
      h.keep h.history rfl rfl rfl rfl rfl rfl
    exact hwrote.move hi rfl (by simp [isResetting]) (by simp [isReading])
  | fails hk =>
    have hload' : isLoading k = false := by
      rcases hk with ⟨k', rfl⟩ | ⟨content, k', rfl⟩ <;> rfl
    exact h.move hi hload' (by simp [hreset k hi]) (by simp [isReading])

theorem step_steadfast {e : RiskEvent} (h : Steadfast W) (hok : steadfastStep cfg W e)
    (hst : riskStep cfg W e = some W') : Steadfast W' := by
  cases e with
  | restart now =>
    simp only [riskStep] at hst
    split at hst
    · cases hst
    rename_i hnow
    cases hst
    exact steadfast_boot h.history fun at₀ ha ↦ (h.past at₀ ha).trans (Nat.le_of_not_lt hnow)
  | run now e =>
    simp only [riskStep] at hst
    split at hst
    · cases hst
    rename_i hnow
    have htick := h.tick (Nat.le_of_not_lt hnow)
    cases e with
    | call c =>
      cases Prog.step_call hst
      exact htick.opens hok.1 (opens_spec cfg (tick W now).shared (tick W now).tasks.length c)
    | resume i a =>
      obtain ⟨k, S', k', hi, hr, rfl⟩ := Prog.step_resume hst
      have hok' : steadfastStep cfg (tick W now) (.run now (.resume i a)) := hok
      exact htick.resumes hi hok' (resumes_spec (i := i) hr)

/-- **The controller fails closed**, in every run whose steps meet the conditions. -/
theorem fails_closed {now : Timestamp}
    (h : Reach (riskStep cfg) (steadfastStep cfg) (RiskWorld.booted now) W) :
    FailsClosed W.shared.history := by
  have hsteadfast := h.invariant (I := Steadfast)
    (steadfast_boot failsClosed_nil (by simp [consumed])) fun V e V' hV hok hst ↦
      step_steadfast hV hok hst
  exact hsteadfast.history

/-! ## Runs to evaluate -/

theorem steadfastStep_call {now : Timestamp} {c : RiskCall}
    (h : Pauses cfg W.shared c → ¬ Under isReading W) : steadfastStep cfg W (.run now (.call c)) :=
  ⟨h, trivial, trivial, trivial, trivial, trivial⟩

/-- A stretch on the day of the state: of a `load`, or with none under way, and with no
`resetPause` under way when it comes to the test for a pause. -/
theorem steadfastStep_resume {now : Timestamp} {a : RiskAnswer}
    (hgate : (W.tasks[i]?.any fun k ↦ reachesTest k a) = true → ¬ Under isResetting W)
    (hquiet : a ≠ .read → ¬ Under isLoading W)
    (hload : a = .read → loadStep W (.run now (.resume i .read))) (hthrew : ∀ text, a ≠ .threw text)
    (hday : W.shared.state.day = dayOf now) : steadfastStep cfg W (.run now (.resume i a)) := by
  refine ⟨trivial, ?_, ?_, ?_, ?_, fun _ _ _ _ _ _ _ ↦ hday⟩
  · intro k hi hk _
    have hne : a ≠ .read := by
      rintro rfl
      simp [reachesTest] at hk
    exact .inr ⟨hquiet hne, hgate (by rw [hi]; exact hk)⟩
  · cases a with
    | market account positions quote => exact fun hl ↦ absurd hl (hquiet (by simp))
    | _ => trivial
  · cases a with
    | read => exact hload rfl
    | _ => trivial
  · cases a with
    | threw text => exact absurd rfl (hthrew text)
    | _ => trivial

def pausedAcrossRestart : List RiskEvent :=
  [.run 0 (.resume 0 .read)] ++ checked 1 1000 ++
    [.run 1000 (.resume 1 .made), .run 1000 (.resume 1 .wrote),
      .run 2000 (.call (.pause "manual")), .run 2000 (.resume 2 .made), .run 2000 (.resume 2 .wrote),
      .restart 3000, .run 3000 (.resume 0 .read),
      .run 4000 (.call (.check (.placeOrder sampleContract sampleOrder none))), .run 4000 (.resume 1 .resumed),
      .run 5000 (.call .resetPause), .run 5000 (.resume 2 .made), .run 5000 (.resume 2 .wrote)] ++
    checked 3 3601001

/-- The pause is found again behind the restart, and so is the slot. -/
theorem fails_closed_across_restart : ∃ W : RiskWorld,
    Reach (riskStep sampleConfig) (steadfastStep sampleConfig) (RiskWorld.booted 0) W ∧
      W.shared.history = [.counted 1000 [], .admitted 1000, .paused, .resumed,
        .counted 3601001 [1000], .admitted 3601001] ∧ FailsClosed W.shared.history := by
  have hr : Reach (riskStep sampleConfig) (steadfastStep sampleConfig) (RiskWorld.booted 0)
      (sampleAfter (RiskWorld.booted 0) pausedAcrossRestart) := by
    refine .of_after pausedAcrossRestart (by decide +kernel) ?_
    intro n e he
    match n with
    | 1 | 6 | 11 | 13 | 16 =>
      cases he
      exact steadfastStep_call fun _ ↦ by decide +kernel
    | 9 =>
      cases he
      exact ⟨trivial, trivial, trivial, trivial, trivial, trivial⟩
    | 0 | 10 =>
      cases he
      refine steadfastStep_resume (by decide +kernel) (by simp) (fun _ _ ↦ ?_) (by simp)
        (by decide +kernel)
      refine ⟨?_, ?_, ?_⟩ <;> decide +kernel
    | 2 | 3 | 4 | 5 | 7 | 8 | 12 | 14 | 15 | 17 | 18 =>
      cases he
      exact steadfastStep_resume (by decide +kernel) (by decide +kernel) (by simp [market])
        (by simp [market]) (by decide +kernel)
    | n + 19 => cases he
  exact ⟨_, hr, by decide +kernel, fails_closed hr⟩

/-- A pause just behind a restart, before `load` has read its file. -/
def pausedAtBoot : List RiskEvent :=
  [.run 0 (.resume 0 .read), .run 0 (.call (.recordFailure "timeout")), .run 0 (.resume 1 .made),
    .run 0 (.resume 1 .wrote), .restart 1000, .run 1000 (.call (.pause "manual")),
    .run 1000 (.resume 0 .read)] ++ checked 2 1000

/-- `load` forgets a pause that came before it resolved. -/
theorem not_fails_closed : ¬ ∀ (cfg : RiskConfig) (now : Timestamp) (W : RiskWorld),
    Reach (riskStep cfg) anyStep (RiskWorld.booted now) W → FailsClosed W.shared.history := by
  intro h
  have hr : Reach (riskStep sampleConfig) anyStep (RiskWorld.booted 0)
      (sampleAfter (RiskWorld.booted 0) pausedAtBoot) :=
    .of_after pausedAtBoot (by decide +kernel) fun _ _ _ ↦ trivial
  have hhistory : (sampleAfter (RiskWorld.booted 0) pausedAtBoot).shared.history =
      [.paused, .counted 1000 []] ++ .admitted 1000 :: [] := by decide +kernel
  have hfine := h sampleConfig 0 _ hr _ _ _ hhistory
  exact Bool.noConfusion hfine

end OpenAlice.Trading.Risk
