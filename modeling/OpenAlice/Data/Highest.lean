import Mathlib.Data.List.Induction
import Mathlib.Data.List.Nodup
import Mathlib.Order.Lattice
import Mathlib.Order.Monotone.Basic

/-!
# The highest of some values, found with rounding

A walk over labelled values that keeps the highest so far, with its label, but keeps it
rounded.  What comes next is compared with the rounded value, so the label at the end need not
be that of the first highest value: `isFirstHighest_highest_iff` says when it is.

Rounding is any monotone function that leaves a rounded value as it is.  The walk starts from a
value that has not been rounded.
-/

universe u v

namespace OpenAlice.Data

variable {ι : Type u} {K : Type v} [LinearOrder K]

section

variable (round : K → K)

def higher (best next : ι × K) : ι × K := if best.2 < next.2 then (next.1, round next.2) else best

def highest (start : ι × K) (l : List (ι × K)) : ι × K := l.foldl (higher round) start

/-- A value that is higher than the start and all before it, and no lower than all after it. -/
structure Splits (start : ι × K) (l before : List (ι × K)) (top : ι × K)
    (after : List (ι × K)) : Prop where
  split : l = before ++ top :: after
  above : start.2 < top.2
  before : ∀ p ∈ before, p.2 < top.2
  after : ∀ p ∈ after, p.2 ≤ top.2

def IsFirstHighest (start : ι × K) (l : List (ι × K)) (best : ι × K) : Prop :=
  (∀ p ∈ l, p.2 ≤ start.2) ∧ best = start ∨
    ∃ before top after, Splits start l before top after ∧ best = (top.1, round top.2)

def RoundsApart (start : ι × K) (l : List (ι × K)) : Prop :=
  ∀ before top after, Splits start l before top after →
    (∀ p ∈ before, start.2 < p.2 → round p.2 < top.2) ∧ ∀ p ∈ after, p.2 ≤ round top.2

end

variable {round : K → K} {start best top top' : ι × K} {l before after before' after' : List (ι × K)}

/-! ## The first highest value -/

theorem Splits.unique (h : Splits start l before top after)
    (h' : Splits start l before' top' after') :
    before = before' ∧ top = top' ∧ after = after' := by
  have hsplit := h.split.symm.trans h'.split
  rcases List.append_eq_append_iff.mp hsplit with ⟨between, hbefore, hrest⟩ | ⟨between, hbefore, hrest⟩
  · cases between with
    | nil =>
      rw [List.append_nil] at hbefore
      rw [List.nil_append] at hrest
      exact ⟨hbefore.symm, (List.cons.inj hrest).1, (List.cons.inj hrest).2⟩
    | cons p between =>
      obtain ⟨hp, hafter⟩ := List.cons.inj hrest
      have hlt : top.2 < top'.2 := h'.before top (by simp [hbefore, hp])
      have hle : top'.2 ≤ top.2 := h.after top' (by simp [hafter])
      exact absurd hlt (not_lt.mpr hle)
  · cases between with
    | nil =>
      rw [List.append_nil] at hbefore
      rw [List.nil_append] at hrest
      exact ⟨hbefore, (List.cons.inj hrest).1.symm, (List.cons.inj hrest).2.symm⟩
    | cons p between =>
      obtain ⟨hp, hafter⟩ := List.cons.inj hrest
      have hlt : top'.2 < top.2 := h.before top' (by simp [hbefore, hp])
      have hle : top.2 ≤ top'.2 := h'.after top (by simp [hafter])
      exact absurd hlt (not_lt.mpr hle)

theorem exists_splits (h : ∃ p ∈ l, start.2 < p.2) :
    ∃ before top after, Splits start l before top after := by
  induction l with
  | nil =>
    obtain ⟨p, hp, -⟩ := h
    cases hp
  | cons q l ih =>
    by_cases hrest : ∃ p ∈ l, start.2 < p.2
    · obtain ⟨before, top, after, hs⟩ := ih hrest
      by_cases hq : q.2 < top.2
      · refine ⟨q :: before, top, after, by rw [hs.split]; rfl, hs.above, ?_, hs.after⟩
        exact List.forall_mem_cons.mpr ⟨hq, hs.before⟩
      have hle : top.2 ≤ q.2 := not_lt.mp hq
      refine ⟨[], q, l, rfl, lt_of_lt_of_le hs.above hle, by simp, ?_⟩
      intro p hp
      rw [hs.split] at hp
      rcases List.mem_append.mp hp with hp | hp
      · exact (hs.before p hp).le.trans hle
      rcases List.mem_cons.mp hp with rfl | hp
      · exact hle
      · exact (hs.after p hp).trans hle
    · obtain ⟨p, hp, hlt⟩ := h
      rcases List.mem_cons.mp hp with rfl | hp
      · refine ⟨[], p, l, rfl, hlt, by simp, ?_⟩
        intro p' hp'
        exact (not_lt.mp fun hlt' ↦ hrest ⟨p', hp', hlt'⟩).trans hlt.le
      · exact absurd ⟨p, hp, hlt⟩ hrest

/-! ## The walk -/

theorem highest_append : highest round start (l ++ before) =
    highest round (highest round start l) before :=
  List.foldl_append

theorem highest_eq_start (h : ∀ p ∈ l, p.2 ≤ start.2) : highest round start l = start := by
  induction l with
  | nil => rfl
  | cons q l ih =>
    obtain ⟨hq, hl⟩ := List.forall_mem_cons.mp h
    have hkept : higher round start q = start := if_neg (not_lt.mpr hq)
    exact (congrArg (highest round · l) hkept).trans (ih hl)

theorem highest_label (h : ∃ p ∈ l, start.2 < p.2) :
    (highest round start l).1 ∈ l.map Prod.fst := by
  have hkeeps : ∀ (l : List (ι × K)) (best : ι × K),
      (highest round best l).1 = best.1 ∨ (highest round best l).1 ∈ l.map Prod.fst := by
    intro l
    induction l with
    | nil => exact fun best ↦ .inl rfl
    | cons q l ih =>
      intro best
      rcases ih (higher round best q) with hfirst | hlater
      · by_cases hq : best.2 < q.2
        · have hnew : higher round best q = (q.1, round q.2) := if_pos hq
          refine .inr (List.mem_cons.mpr (.inl ?_))
          exact hfirst.trans (by rw [hnew])
        · refine .inl (hfirst.trans ?_)
          exact congrArg Prod.fst (if_neg hq : higher round best q = best)
      · exact .inr (List.mem_cons_of_mem _ hlater)
  induction l with
  | nil =>
    obtain ⟨p, hp, -⟩ := h
    cases hp
  | cons q l ih =>
    by_cases hq : start.2 < q.2
    · have hnew : higher round start q = (q.1, round q.2) := if_pos hq
      rcases hkeeps l (higher round start q) with hfirst | hlater
      · refine List.mem_cons.mpr (.inl (hfirst.trans ?_))
        rw [hnew]
      · exact List.mem_cons_of_mem _ hlater
    · have hkept : higher round start q = start := if_neg hq
      have hrest : ∃ p ∈ l, start.2 < p.2 := by
        obtain ⟨p, hp, hlt⟩ := h
        rcases List.mem_cons.mp hp with rfl | hp
        · exact absurd hlt hq
        · exact ⟨p, hp, hlt⟩
      refine List.mem_cons_of_mem _ ?_
      show (highest round (higher round start q) l).1 ∈ l.map Prod.fst
      rw [hkept]
      exact ih hrest

theorem highest_value (hmono : Monotone round) (hidem : ∀ x, round (round x) = round x)
    (l : List (ι × K)) :
    (∀ p ∈ l, start.2 < p.2 → round p.2 ≤ (highest round start l).2) ∧
      (highest round start l = start ∨
        ∃ p ∈ l, start.2 < p.2 ∧ (highest round start l).2 = round p.2) := by
  induction l using List.reverseRec with
  | nil => exact ⟨by simp, .inl rfl⟩
  | append_singleton l q ih =>
    obtain ⟨hupper, hvalue⟩ := ih
    rw [highest_append]
    by_cases hq : (highest round start l).2 < q.2
    · have hnew : highest round (highest round start l) [q] = (q.1, round q.2) := if_pos hq
      rw [hnew]
      have hgrows : ∀ p ∈ l, start.2 < p.2 → round p.2 ≤ round q.2 := by
        intro p hp hlt
        have hle := hmono ((hupper p hp hlt).trans hq.le)
        rwa [hidem] at hle
      refine ⟨?_, .inr ?_⟩
      · intro p hp hlt
        rcases List.mem_append.mp hp with hp | hp
        · exact hgrows p hp hlt
        · rw [List.mem_singleton.mp hp]
      rcases hvalue with hstart | ⟨p, hp, hlt, hbest⟩
      · rw [hstart] at hq
        exact ⟨q, by simp, hq, rfl⟩
      by_cases hs : start.2 < q.2
      · exact ⟨q, by simp, hs, rfl⟩
      -- what is no higher than the start is rounded like what was
      refine ⟨p, by simp [hp], hlt, le_antisymm ?_ (hgrows p hp hlt)⟩
      exact hmono ((not_lt.mp hs).trans hlt.le)
    · have hkept : highest round (highest round start l) [q] = highest round start l := if_neg hq
      rw [hkept]
      refine ⟨?_, ?_⟩
      · intro p hp hlt
        rcases List.mem_append.mp hp with hp | hp
        · exact hupper p hp hlt
        rw [List.mem_singleton.mp hp] at hlt ⊢
        rcases hvalue with hstart | ⟨p', hp', hlt', hbest⟩
        · rw [hstart] at hq
          exact absurd hlt hq
        · have hle := hmono (not_lt.mp hq)
          rwa [hbest, hidem, ← hbest] at hle
      · rcases hvalue with hstart | ⟨p, hp, hlt, hbest⟩
        · exact .inl hstart
        · exact .inr ⟨p, by simp [hp], hlt, hbest⟩

/-- **When the walk finds the first highest value**: with labels that are all different, if and
only if rounding does not blur it. -/
theorem isFirstHighest_highest_iff (hmono : Monotone round)
    (hidem : ∀ x, round (round x) = round x) (hnodup : (l.map Prod.fst).Nodup) :
    IsFirstHighest round start l (highest round start l) ↔ RoundsApart round start l := by
  by_cases hex : ∃ p ∈ l, start.2 < p.2
  · obtain ⟨before, top, after, hs⟩ := exists_splits hex
    rw [hs.split, List.map_append, List.map_cons, List.nodup_middle, List.nodup_cons,
      List.mem_append, not_or] at hnodup
    obtain ⟨⟨hbefore, hafter⟩, -⟩ := hnodup
    have hend : highest round start l =
        highest round (higher round (highest round start before) top) after := by
      rw [hs.split, highest_append]
      rfl
    constructor
    · intro hfirst
      have hlabel : (highest round start l).1 = top.1 := by
        rcases hfirst with ⟨hall, -⟩ | ⟨before', top', after', hs', hbest⟩
        · obtain ⟨p, hp, hlt⟩ := hex
          exact absurd hlt (not_lt.mpr (hall p hp))
        · rw [hbest, (hs.unique hs').2.1]
      intro before' top' after' hs'
      obtain ⟨rfl, rfl, rfl⟩ := hs.unique hs'
      have hreached : (highest round start before).2 < top.2 := by
        by_contra hnot
        have hkept : higher round (highest round start before) top = highest round start before :=
          if_neg hnot
        rw [hend, hkept, highest_eq_start fun p hp ↦ (hs.after p hp).trans (not_lt.mp hnot)] at hlabel
        refine hbefore (hlabel ▸ highest_label ?_)
        by_contra hnone
        rw [highest_eq_start fun p hp ↦ not_lt.mp fun hlt ↦ hnone ⟨p, hp, hlt⟩] at hnot
        exact hnot hs.above
      refine ⟨fun p hp hlt ↦ ?_, ?_⟩
      · exact lt_of_le_of_lt ((highest_value hmono hidem before).1 p hp hlt) hreached
      intro p hp
      by_contra hnot
      have hnew : higher round (highest round start before) top = (top.1, round top.2) :=
        if_pos hreached
      rw [hend, hnew] at hlabel
      exact hafter (hlabel ▸ highest_label ⟨p, hp, not_le.mp hnot⟩)
    · intro hres
      obtain ⟨hblur, hleft⟩ := hres before top after hs
      refine .inr ⟨before, top, after, hs, ?_⟩
      have hreached : (highest round start before).2 < top.2 := by
        have hvalue : highest round start before = start ∨
            ∃ p ∈ before, start.2 < p.2 ∧ (highest round start before).2 = round p.2 :=
          (highest_value hmono hidem before).2
        rcases hvalue with hstart | ⟨p, hp, hlt, hbest⟩
        · rw [hstart]
          exact hs.above
        · rw [hbest]
          exact hblur p hp hlt
      have hnew : higher round (highest round start before) top = (top.1, round top.2) :=
        if_pos hreached
      rw [hend, hnew, highest_eq_start hleft]
  · have hall : ∀ p ∈ l, p.2 ≤ start.2 := fun p hp ↦ not_lt.mp fun hlt ↦ hex ⟨p, hp, hlt⟩
    refine iff_of_true (.inl ⟨hall, highest_eq_start hall⟩) ?_
    intro before top after hs
    refine absurd ⟨top, ?_, hs.above⟩ hex
    rw [hs.split]
    exact List.mem_append_right _ List.mem_cons_self

end OpenAlice.Data
