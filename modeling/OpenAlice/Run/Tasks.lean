import Mathlib.Logic.Function.Basic
import OpenAlice.Run.Basic

/-!
# Cooperative tasks over a shared state

A single-threaded event loop runs many calls at once by letting each of them
suspend.  A call runs without interruption up to its first suspension, where it
leaves a task holding its local state; when what it waits for is answered, the
task runs without interruption up to its next suspension, and so on.  Between
two such stretches any other task may run.

`Prog` gives the two kinds of stretch, `World` the shared state together with
one task for every call ever made (a finished call stays as a finished task, so
a call's number is its position), and `Prog.step` the machine whose runs are
all the interleavings.

The second half is the proof rule that goes with a flag guarding the shared
state: `Lock` says that a task is `active` only between setting the flag and
clearing it, `Lock.exclusive` that then at most one task is ever active, and
`Lock.assertions` that an assertion about the active task survives the steps of
all the others as soon as each of them keeps it while the flag is set.
-/

universe u v w x

namespace OpenAlice.Run

variable {σ : Type u} {κ : Type v} {γ : Type w} {ρ : Type x}

/-- The uninterrupted stretches of a family of suspending calls: `start s i c`
runs call number `i` up to its first suspension, `resume s i k r` runs it on
from the suspended state `k` with the answer `r` to what it waited for, when it
waits for such an answer. -/
structure Prog (σ : Type u) (κ : Type v) (γ : Type w) (ρ : Type x) where
  /-- Run a new call up to its first suspension. -/
  start : σ → Nat → γ → σ × κ
  /-- Run a suspended call up to its next suspension. -/
  resume : σ → Nat → κ → ρ → Option (σ × κ)

/-- A shared state and the tasks of all calls made so far, in call order. -/
structure World (σ : Type u) (κ : Type v) where
  shared : σ
  tasks : List κ

/-- What can happen next: a new call, or the answer a task waits for. -/
inductive Event (γ : Type w) (ρ : Type x) where
  | call (c : γ)
  | resume (i : Nat) (r : ρ)
deriving DecidableEq

namespace Prog

variable (P : Prog σ κ γ ρ)

def step (W : World σ κ) : Event γ ρ → Option (World σ κ)
  | .call c =>
    some ⟨(P.start W.shared W.tasks.length c).1,
      W.tasks ++ [(P.start W.shared W.tasks.length c).2]⟩
  | .resume i r =>
    (W.tasks[i]?).bind fun k ↦
      (P.resume W.shared i k r).map fun q ↦ ⟨q.1, W.tasks.set i q.2⟩

variable {P} {W W' : World σ κ}

theorem step_call {c : γ} (h : P.step W (.call c) = some W') :
    W' = ⟨(P.start W.shared W.tasks.length c).1,
      W.tasks ++ [(P.start W.shared W.tasks.length c).2]⟩ := by
  simpa [step] using h.symm

theorem step_resume {i : Nat} {r : ρ} (h : P.step W (.resume i r) = some W') :
    ∃ k s' k', W.tasks[i]? = some k ∧ P.resume W.shared i k r = some (s', k') ∧
      W' = ⟨s', W.tasks.set i k'⟩ := by
  simp only [step, Option.bind_eq_some_iff, Option.map_eq_some_iff] at h
  obtain ⟨k, hk, ⟨s', k'⟩, hr, hW⟩ := h
  exact ⟨k, s', k', hk, hr, hW.symm⟩

end Prog

namespace World

variable {W : World σ κ}

variable {l : List κ}

theorem task_append {a k : κ} {i : Nat} (h : (l ++ [a])[i]? = some k) :
    l[i]? = some k ∨ i = l.length ∧ k = a := by
  rw [List.getElem?_append] at h
  split at h
  · exact .inl h
  rename_i hi
  rw [List.getElem?_singleton] at h
  split at h
  · rename_i h0
    exact .inr ⟨by omega, (Option.some.inj h).symm⟩
  · cases h

theorem task_set {a k : κ} {i j : Nat} (h : (l.set i a)[j]? = some k) :
    j = i ∧ k = a ∨ j ≠ i ∧ l[j]? = some k := by
  by_cases hij : j = i
  · subst hij
    rw [List.getElem?_set_self'] at h
    obtain ⟨b, _, hb⟩ := Option.map_eq_some_iff.mp h
    exact .inl ⟨rfl, hb.symm⟩
  · rw [List.getElem?_set_ne (Ne.symm hij)] at h
    exact .inr ⟨hij, h⟩

theorem task_set_iff {a b k : κ} {i j : Nat} (hi : l[i]? = some b) (hb : b ≠ k)
    (ha : a ≠ k) : (l.set i a)[j]? = some k ↔ l[j]? = some k := by
  constructor
  · intro hj
    rcases task_set hj with ⟨_, he⟩ | ⟨_, hj⟩
    · exact absurd he.symm ha
    · exact hj
  intro hj
  have hne : i ≠ j := by
    rintro rfl
    exact hb (Option.some.inj (hi.symm.trans hj))
  rw [List.getElem?_set_ne hne, hj]

/-- One task is new or has moved, and the others stand where they stood. -/
structure Moved (l l' : List κ) (i : Nat) (k : κ) : Prop where
  self : l'[i]? = some k
  other : ∀ j, j ≠ i → l'[j]? = l[j]?

theorem Moved.append (l : List κ) (k : κ) : Moved l (l ++ [k]) l.length k where
  self := by simp
  other j hj := by
    rcases Nat.lt_or_ge j l.length with hlt | hge
    · exact List.getElem?_append_left hlt
    rw [List.getElem?_eq_none hge, List.getElem?_eq_none]
    rw [List.length_append, List.length_singleton]
    exact Nat.lt_of_le_of_ne hge (Ne.symm hj)

theorem Moved.set {i : Nat} {k₀ : κ} (h : l[i]? = some k₀) (k : κ) : Moved l (l.set i k) i k where
  self := List.getElem?_set_self (List.getElem?_eq_some_iff.mp h).1
  other _ hj := List.getElem?_set_ne (Ne.symm hj)

theorem Moved.cases {l l' : List κ} {i j : Nat} {k k' : κ} (h : Moved l l' i k)
    (hj : l'[j]? = some k') : j = i ∧ k' = k ∨ j ≠ i ∧ l[j]? = some k' := by
  by_cases hji : j = i
  · rw [hji, h.self] at hj
    exact .inl ⟨hji, (Option.some.inj hj).symm⟩
  · exact .inr ⟨hji, (h.other j hji).symm.trans hj⟩

theorem Moved.holds {β : Type x} {l l' : List κ} {i : Nat} {k : κ} (h : Moved l l' i k)
    (f : κ → Option β) :
    (fun j ↦ (l'[j]?).bind f) = Function.update (fun j ↦ (l[j]?).bind f) i (f k) := by
  funext j
  by_cases hji : j = i
  · rw [hji, Function.update_self, h.self]
    rfl
  · rw [Function.update_of_ne hji, h.other j hji]

theorem split_task {k : κ} {i : Nat} (hi : l[i]? = some k) :
    ∃ before after, l = before ++ k :: after ∧ ∀ k', l.set i k' = before ++ k' :: after := by
  obtain ⟨hlt, rfl⟩ := List.getElem?_eq_some_iff.mp hi
  have hset : ∀ k', l.set i k' = l.take i ++ k' :: l.drop (i + 1) := by
    intro k'
    rw [List.set_eq_take_append_cons_drop, if_pos hlt]
  refine ⟨l.take i, l.drop (i + 1), ?_, hset⟩
  rw [← hset, List.set_getElem_self]

end World

/-! ## A flag and the task that owns it -/

section Lock

variable {P : Prog σ κ γ ρ} {held : σ → Bool} {active : κ → Bool}
variable {ok : World σ κ → Event γ ρ → Prop} {W W' : World σ κ}

/-- The discipline of a flag: a call becomes active only by finding the flag
clear and setting it, an active task keeps the flag set until it stops being
active, and nobody else touches it. -/
structure Lock (P : Prog σ κ γ ρ) (held : σ → Bool) (active : κ → Bool) : Prop where
  /-- A new call is active and has taken the flag, or leaves it alone. -/
  start : ∀ s i c, active (P.start s i c).2 = true ∧ held s = false ∧
      held (P.start s i c).1 = true ∨
    active (P.start s i c).2 = false ∧ held (P.start s i c).1 = held s
  /-- A task that is not active becomes so by taking the flag, or leaves it
  alone. -/
  idle : ∀ s i k r s' k', active k = false → P.resume s i k r = some (s', k') →
    active k' = true ∧ held s = false ∧ held s' = true ∨ active k' = false ∧ held s' = held s
  /-- The active task holds the flag exactly as long as it is active. -/
  owner : ∀ s i k r s' k', active k = true → held s = true →
    P.resume s i k r = some (s', k') → held s' = active k'

/-- At most one task is active, and the flag is set exactly when one is. -/
structure Exclusive (held : σ → Bool) (active : κ → Bool) (W : World σ κ) : Prop where
  unique : ∀ (i j : Nat) (k k' : κ), W.tasks[i]? = some k → W.tasks[j]? = some k' →
    active k = true → active k' = true → i = j
  held_of_active : ∀ (i : Nat) (k : κ), W.tasks[i]? = some k → active k = true → held W.shared = true
  active_of_held : held W.shared = true → ∃ (i : Nat) (k : κ), W.tasks[i]? = some k ∧ active k = true

namespace Exclusive

theorem of_nil {s : σ} (h : held s = false) : Exclusive held active ⟨s, []⟩ where
  unique := by simp
  held_of_active := by simp
  active_of_held := by simp [h]

theorem of_none (hf : held W.shared = false)
    (hno : ∀ (i : Nat) (k : κ), W.tasks[i]? = some k → active k = false) :
    Exclusive held active W where
  unique i _ k _ hi _ hk _ := by simp [hno i k hi] at hk
  held_of_active i k hi hk := by simp [hno i k hi] at hk
  active_of_held hh := by simp [hf] at hh

theorem of_only {n : Nat} {k : κ} (hn : W.tasks[n]? = some k) (hk : active k = true)
    (hh : held W.shared = true)
    (honly : ∀ (i : Nat) (k' : κ), W.tasks[i]? = some k' → active k' = true → i = n) :
    Exclusive held active W where
  unique i j _ _ hi hj hk hk' := (honly i _ hi hk).trans (honly j _ hj hk').symm
  held_of_active _ _ _ _ := hh
  active_of_held _ := ⟨n, k, hn, hk⟩

theorem not_active (h : Exclusive held active W) (hf : held W.shared = false) {i : Nat} {k : κ}
    (hk : W.tasks[i]? = some k) : active k = false := by
  by_contra hc
  have hh := h.held_of_active i k hk (by simpa using hc)
  rw [hf] at hh
  cases hh

theorem of_same (h : Exclusive held active W) (hs : held W'.shared = held W.shared)
    (hback : ∀ (i : Nat) (k : κ), W'.tasks[i]? = some k → active k = true → W.tasks[i]? = some k)
    (hforth : ∀ (i : Nat) (k : κ), W.tasks[i]? = some k → active k = true →
      W'.tasks[i]? = some k) : Exclusive held active W' where
  unique i j k k' hi hj hk hk' := h.unique i j k k' (hback i k hi hk) (hback j k' hj hk') hk hk'
  held_of_active i k hi hk := hs.trans (h.held_of_active i k (hback i k hi hk) hk)
  active_of_held hh := by
    obtain ⟨i, k, hi, hk⟩ := h.active_of_held (hs.symm.trans hh)
    exact ⟨i, k, hforth i k hi hk, hk⟩

end Exclusive

theorem Lock.step_exclusive (L : Lock P held active) (h : Exclusive held active W)
    {e : Event γ ρ} (hst : P.step W e = some W') : Exclusive held active W' := by
  cases e with
  | call c =>
    cases Prog.step_call hst
    have self : (W.tasks ++ [(P.start W.shared W.tasks.length c).2])[W.tasks.length]? =
        some (P.start W.shared W.tasks.length c).2 := by simp
    rcases L.start W.shared W.tasks.length c with ⟨ha, hf, ht⟩ | ⟨ha, hs⟩
    · refine .of_only self ha ht ?_
      intro i k hi hk
      rcases World.task_append hi with hi | ⟨rfl, _⟩
      · rw [h.not_active hf hi] at hk
        cases hk
      · rfl
    · refine h.of_same hs ?_ ?_
      · intro i k hi hk
        rcases World.task_append hi with hi | ⟨_, rfl⟩
        · exact hi
        · rw [ha] at hk
          cases hk
      · intro i k hi _
        exact (List.getElem?_append_left (List.getElem?_eq_some_iff.mp hi).1).trans hi
  | resume n r =>
    obtain ⟨k₀, s', k₁, hn, hr, rfl⟩ := Prog.step_resume hst
    have self : (W.tasks.set n k₁)[n]? = some k₁ := by
      rw [List.getElem?_set_self (List.getElem?_eq_some_iff.mp hn).1]
    cases ha : active k₀ with
    | false =>
      rcases L.idle _ _ _ _ _ _ ha hr with ⟨ha₁, hf, ht⟩ | ⟨ha₁, hs⟩
      · refine .of_only self ha₁ ht ?_
        intro i k hi hk
        rcases World.task_set hi with ⟨rfl, _⟩ | ⟨_, hi⟩
        · rfl
        · rw [h.not_active hf hi] at hk
          cases hk
      · refine h.of_same hs ?_ ?_
        · intro i k hi hk
          rcases World.task_set hi with ⟨_, rfl⟩ | ⟨_, hi⟩
          · rw [ha₁] at hk
            cases hk
          · exact hi
        · intro i k hi hk
          have hne : n ≠ i := by
            rintro rfl
            rw [hn] at hi
            cases hi
            rw [ha] at hk
            cases hk
          exact (List.getElem?_set_ne hne).trans hi
    | true =>
      have hs := L.owner _ _ _ _ _ _ ha (h.held_of_active n k₀ hn ha) hr
      have only : ∀ (i : Nat) (k : κ), (W.tasks.set n k₁)[i]? = some k → active k = true →
          i = n := by
        intro i k hi hk
        rcases World.task_set hi with ⟨rfl, _⟩ | ⟨_, hi⟩
        · rfl
        · exact h.unique i n k k₀ hi hn hk ha
      cases ha₁ : active k₁ with
      | true => exact .of_only self ha₁ (hs.trans ha₁) only
      | false =>
        refine .of_none (hs.trans ha₁) ?_
        intro i k hi
        by_contra hk
        have hk : active k = true := by simpa using hk
        cases only i k hi hk
        rw [self] at hi
        cases hi
        rw [ha₁] at hk
        cases hk

/-- **Mutual exclusion.**  Under the discipline at most one task is active in
every state reached from one with no tasks and the flag clear. -/
theorem Lock.exclusive (L : Lock P held active) {s : σ} (hs : held s = false)
    (h : Reach P.step ok ⟨s, []⟩ W) : Exclusive held active W :=
  h.invariant (.of_nil hs) fun _ _ _ hI _ hst ↦ L.step_exclusive hI hst

/-- The obligations for an invariant `I` of the shared state together with an
assertion `J` about the active task.  `ok` is the condition the steps of the
run meet. -/
structure Obligations (P : Prog σ κ γ ρ) (held : σ → Bool) (active : κ → Bool)
    (ok : World σ κ → Event γ ρ → Prop) (I : σ → Prop) (J : σ → Nat → κ → Prop) : Prop where
  /-- A new call keeps the invariant and, if it becomes active, establishes its
  own assertion. -/
  start : ∀ W c, ok W (.call c) → I W.shared → Exclusive held active W →
    I (P.start W.shared W.tasks.length c).1 ∧ (active (P.start W.shared W.tasks.length c).2 = true →
        J (P.start W.shared W.tasks.length c).1 W.tasks.length
          (P.start W.shared W.tasks.length c).2)
  startOther : ∀ W c j k, ok W (.call c) → I W.shared → held W.shared = true → active k = true →
    J W.shared j k → J (P.start W.shared W.tasks.length c).1 j k
  /-- A task that is not active keeps the invariant and, if it becomes active,
  establishes its own assertion. -/
  idle : ∀ W i k r s' k', ok W (.resume i r) → W.tasks[i]? = some k → I W.shared →
    active k = false → P.resume W.shared i k r = some (s', k') →
    I s' ∧ (active k' = true → J s' i k')
  idleOther : ∀ W i k r s' k' j k₀, ok W (.resume i r) → W.tasks[i]? = some k → I W.shared →
    held W.shared = true → active k = false → P.resume W.shared i k r = some (s', k') →
    active k₀ = true → J W.shared j k₀ → J s' j k₀
  owner : ∀ W i k r s' k', ok W (.resume i r) → W.tasks[i]? = some k → I W.shared →
    held W.shared = true → active k = true → J W.shared i k →
    P.resume W.shared i k r = some (s', k') → I s' ∧ (active k' = true → J s' i k')

/-- What the obligations establish: the invariant, and the assertion of every
active task. -/
structure Asserted (active : κ → Bool) (I : σ → Prop) (J : σ → Nat → κ → Prop)
    (W : World σ κ) : Prop where
  inv : I W.shared
  active : ∀ (i : Nat) (k : κ), W.tasks[i]? = some k → active k = true → J W.shared i k

variable {I : σ → Prop} {J : σ → Nat → κ → Prop}

theorem Obligations.step (O : Obligations P held active ok I J)
    (hx : Exclusive held active W) (h : Asserted active I J W) {e : Event γ ρ} (hok : ok W e)
    (hst : P.step W e = some W') : Asserted active I J W' := by
  cases e with
  | call c =>
    cases Prog.step_call hst
    obtain ⟨hI, hJ⟩ := O.start W c hok h.inv hx
    refine ⟨hI, ?_⟩
    intro i k hi hk
    rcases World.task_append hi with hi | ⟨rfl, rfl⟩
    · exact O.startOther W c i k hok h.inv (hx.held_of_active i k hi hk) hk (h.active i k hi hk)
    · exact hJ hk
  | resume n r =>
    obtain ⟨k₀, s', k₁, hn, hr, rfl⟩ := Prog.step_resume hst
    cases ha : active k₀ with
    | false =>
      obtain ⟨hI, hJ⟩ := O.idle W n k₀ r s' k₁ hok hn h.inv ha hr
      refine ⟨hI, ?_⟩
      intro i k hi hk
      rcases World.task_set hi with ⟨rfl, rfl⟩ | ⟨_, hi⟩
      · exact hJ hk
      · exact O.idleOther W n k₀ r s' k₁ i k hok hn h.inv (hx.held_of_active i k hi hk) ha hr
          hk (h.active i k hi hk)
    | true =>
      have hh := hx.held_of_active n k₀ hn ha
      obtain ⟨hI, hJ⟩ := O.owner W n k₀ r s' k₁ hok hn h.inv hh ha (h.active n k₀ hn ha) hr
      refine ⟨hI, ?_⟩
      intro i k hi hk
      rcases World.task_set hi with ⟨rfl, rfl⟩ | ⟨hne, hi⟩
      · exact hJ hk
      · exact absurd (hx.unique i n k k₀ hi hn hk ha) hne

/-- **The assertion rule.**  Under the discipline the invariant and the active
task's assertion hold in every state reached by steps that meet `ok`. -/
theorem Lock.assertions (L : Lock P held active) (O : Obligations P held active ok I J) {s : σ}
    (hs : held s = false) (hI : I s) (h : Reach P.step ok ⟨s, []⟩ W) : Asserted active I J W :=
  h.invariant_of_reach ⟨hI, by simp⟩ fun _ _ _ hr hA hok hst ↦ O.step (L.exclusive hs hr) hA hok hst

end Lock

end OpenAlice.Run
