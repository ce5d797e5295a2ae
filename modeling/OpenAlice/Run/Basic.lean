import Mathlib.Data.List.Induction

/-!
# Runs of partial machines

A machine is a partial step function `σ → ε → Option σ`: in a state it either
accepts an event and moves, or the event cannot happen there.  `Reach` collects
the states of the runs all of whose steps meet a condition `ok` on the state
before the step and the event taken; the unconditioned runs are those of
`ok := fun _ _ ↦ True`.

Nothing here knows what the machine is a machine of.
-/

universe u v

namespace OpenAlice.Run

variable {σ : Type u} {ε : Type v}

abbrev anyStep : σ → ε → Prop := fun _ _ ↦ True

/-- The states a machine reaches from `s` by steps that meet `ok`. -/
inductive Reach (step : σ → ε → Option σ) (ok : σ → ε → Prop) (s : σ) : σ → Prop
  | refl : Reach step ok s s
  | tail {t u : σ} {e : ε} : Reach step ok s t → ok t e → step t e = some u → Reach step ok s u

variable {step : σ → ε → Option σ} {ok ok' : σ → ε → Prop} {s t u : σ}

namespace Reach

theorem single {e : ε} (hok : ok s e) (h : step s e = some t) : Reach step ok s t :=
  .tail .refl hok h

theorem trans (h : Reach step ok s t) (h' : Reach step ok t u) : Reach step ok s u := by
  induction h' with
  | refl => exact h
  | tail _ hok hst ih => exact .tail ih hok hst

theorem mono (hle : ∀ a e, ok a e → ok' a e) (h : Reach step ok s t) : Reach step ok' s t := by
  induction h with
  | refl => exact .refl
  | tail _ hok hst ih => exact .tail ih (hle _ _ hok) hst

theorem forget (h : Reach step ok s t) : Reach step anyStep s t :=
  h.mono fun _ _ _ ↦ trivial

/-- **The invariant rule.**  What holds at the start and is kept by every step
that meets the condition holds in every state reached. -/
theorem invariant {I : σ → Prop} (h : Reach step ok s t) (h₀ : I s)
    (hstep : ∀ a e b, I a → ok a e → step a e = some b → I b) : I t := by
  induction h with
  | refl => exact h₀
  | tail _ hok hst ih => exact hstep _ _ _ ih hok hst

theorem invariant_of_reach {I : σ → Prop} (h : Reach step ok s t) (h₀ : I s)
    (hstep : ∀ a e b, Reach step ok s a → I a → ok a e → step a e = some b → I b) : I t := by
  induction h with
  | refl => exact h₀
  | tail hr hok hst ih => exact hstep _ _ _ hr ih hok hst

end Reach

/-! ## Feeding a machine a list of events -/

/-- The state after feeding the machine `es` in order, when it accepts them all. -/
def exec (step : σ → ε → Option σ) (s : σ) : List ε → Option σ
  | [] => some s
  | e :: es => (step s e).bind fun t ↦ exec step t es

/-- Every step of feeding `es` meets `ok`. -/
def ExecOk (step : σ → ε → Option σ) (ok : σ → ε → Prop) (s : σ) : List ε → Prop
  | [] => True
  | e :: es => ok s e ∧ ∀ t, step s e = some t → ExecOk step ok t es

instance decidableExecOk [∀ s e, Decidable (ok s e)] :
    (es : List ε) → (s : σ) → Decidable (ExecOk step ok s es)
  | [], _ => isTrue trivial
  | e :: es, s =>
    match h : step s e with
    | none => decidable_of_iff (ok s e)
        ⟨fun hok ↦ ⟨hok, fun t ht ↦ by rw [h] at ht; cases ht⟩, fun hok ↦ hok.1⟩
    | some t =>
      haveI := decidableExecOk es t
      decidable_of_iff (ok s e ∧ ExecOk step ok t es)
        ⟨fun hok ↦ ⟨hok.1, fun u hu ↦ by rw [h] at hu; cases hu; exact hok.2⟩,
          fun hok ↦ ⟨hok.1, hok.2 t h⟩⟩

variable {es : List ε}

theorem exec_cons {e : ε} : exec step s (e :: es) = (step s e).bind fun t ↦ exec step t es := rfl

theorem Reach.of_execOk (h : exec step s es = some t) (hok : ExecOk step ok s es) :
    Reach step ok s t := by
  induction es generalizing s with
  | nil =>
    cases h
    exact .refl
  | cons e es ih =>
    rw [exec_cons, Option.bind_eq_some_iff] at h
    obtain ⟨a, ha, h⟩ := h
    exact (Reach.single hok.1 ha).trans (ih h (hok.2 a ha))

theorem ExecOk.and (h : ExecOk step ok s es) (h' : ExecOk step ok' s es) :
    ExecOk step (fun a e ↦ ok a e ∧ ok' a e) s es := by
  induction es generalizing s with
  | nil => trivial
  | cons e es ih => exact ⟨⟨h.1, h'.1⟩, fun t ht ↦ ih (h.2 t ht) (h'.2 t ht)⟩

/-- **Two conditions that agree** in every state that the events lead to: they agree where an
invariant holds, and one of them keeps it. -/
theorem execOk_congr {I : σ → Prop} {P : ε → Prop} (hes : ∀ e ∈ es, P e) (h₀ : I s)
    (hiff : ∀ a e, I a → P e → (ok a e ↔ ok' a e))
    (hkeep : ∀ a e b, I a → P e → ok a e → step a e = some b → I b) :
    ExecOk step ok s es ↔ ExecOk step ok' s es := by
  induction es generalizing s with
  | nil => exact Iff.rfl
  | cons e es ih =>
    rw [List.forall_mem_cons] at hes
    have hhead := hiff s e h₀ hes.1
    constructor
    · rintro ⟨hok, hrest⟩
      refine ⟨hhead.mp hok, fun t ht ↦ ?_⟩
      exact (ih hes.2 (hkeep s e t h₀ hes.1 hok ht)).mp (hrest t ht)
    rintro ⟨hok, hrest⟩
    have hok' := hhead.mpr hok
    refine ⟨hok', fun t ht ↦ ?_⟩
    exact (ih hes.2 (hkeep s e t h₀ hes.1 hok' ht)).mpr (hrest t ht)

theorem execOk_of_forall (h : ∀ e ∈ es, ∀ a, ok a e) (s : σ) :
    ExecOk step ok s es := by
  induction es generalizing s with
  | nil => trivial
  | cons e es ih =>
    rw [List.forall_mem_cons] at h
    exact ⟨h.1 s, fun t _ ↦ ih h.2 t⟩

theorem Reach.of_exec_of_forall (es : List ε) (h : exec step s es = some t)
    (hok : ∀ e ∈ es, ∀ a, ok a e) : Reach step ok s t :=
  .of_execOk h (execOk_of_forall hok s)

theorem Reach.of_exec (es : List ε) (h : exec step s es = some t) : Reach step anyStep s t :=
  .of_exec_of_forall es h fun _ _ _ ↦ trivial

/-! ## The state after a list of events -/

/-- The state after feeding the machine `es`, when it accepts them all. -/
def after (step : σ → ε → Option σ) (s : σ) (es : List ε) : σ := (exec step s es).getD s

theorem exec_append {es es' : List ε} :
    exec step s (es ++ es') = (exec step s es).bind fun t ↦ exec step t es' := by
  induction es generalizing s with
  | nil => rfl
  | cons e es ih =>
    rw [List.cons_append, exec_cons, exec_cons, Option.bind_assoc]
    congr 1
    funext t
    exact ih

theorem step_after {e : ε} (h : (exec step s (es ++ [e])).isSome = true) :
    step (after step s es) e = some (after step s (es ++ [e])) := by
  obtain ⟨u, hu⟩ := Option.isSome_iff_exists.mp h
  have hsplit := hu
  rw [exec_append, Option.bind_eq_some_iff] at hsplit
  obtain ⟨t, ht, hstep⟩ := hsplit
  rw [exec_cons, Option.bind_eq_some_iff] at hstep
  obtain ⟨u', hu', he⟩ := hstep
  cases he
  rw [after, ht, after, hu]
  exact hu'

theorem Reach.of_after (es : List ε) (h : (exec step s es).isSome = true)
    (hok : ∀ (n : Nat) e, es[n]? = some e → ok (after step s (es.take n)) e) :
    Reach step ok s (after step s es) := by
  induction es using List.reverseRecOn with
  | nil => exact .refl
  | append_singleton es e ih =>
    have hbefore : (exec step s es).isSome = true := by
      obtain ⟨u, hu⟩ := Option.isSome_iff_exists.mp h
      rw [exec_append, Option.bind_eq_some_iff] at hu
      obtain ⟨t, ht, _⟩ := hu
      exact ht ▸ rfl
    refine (ih hbefore ?_).tail ?_ (step_after h)
    · intro n e' he
      have hn : n < es.length := (List.getElem?_eq_some_iff.mp he).1
      have hnext := hok n e' (by rw [List.getElem?_append_left hn, he])
      rwa [List.take_append_of_le_length (Nat.le_of_lt hn)] at hnext
    · have hlast := hok es.length e (by simp)
      rwa [List.take_left] at hlast

end OpenAlice.Run
