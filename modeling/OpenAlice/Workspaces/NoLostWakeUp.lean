import Mathlib.Data.List.TakeWhile
import OpenAlice.Workspaces.OperationGuard

/-!
# Waiting callers are woken

A release wakes the head of one queue.  That is enough when the head still waits, and when
the call it wakes claims the workspace, so that its release wakes the next one.  It is not
when the head is the ticket of a call that has gone on (it was woken through another of its
workspaces), nor when the woken call fails before it gets to the workspace: then the
workspace is free, and nobody is on the way to it.  `handsOnStep` is the condition that
neither happens while somebody waits.

The invariant behind it, `Attended`: whoever waits has a ticket that is not resolved, and a
free workspace in whose queue somebody waits is wanted by a woken call.
-/

namespace OpenAlice.Workspaces

open OpenAlice.Run

universe u

variable {Id : Type u}

/-! ## What should hold -/

/-- No two unreleased leases cover the same workspace. -/
def Exclusive (g : Guard Id) : Prop :=
  ∀ (n m : Nat) (l l' : Lease Id), g.leases[n]? = some l → g.leases[m]? = some l' →
    l.released = false → l'.released = false → ∀ id ∈ l.ids, id ∈ l'.ids → n = m

def Quiescent (g : Guard Id) : Prop :=
  ∀ c ∈ g.callers, c.phase ≠ .woken

/-- Whoever is suspended while no microtask is pending has a workspace that is held. -/
def NoLostWakeUp (g : Guard Id) : Prop :=
  Quiescent g → ∀ c ∈ g.callers, c.phase = .waiting → ∃ id ∈ c.ids, (g.active id).isSome

/-- Once every lease is released and no microtask is pending, nobody is suspended. -/
def EverybodyServed (g : Guard Id) : Prop :=
  (∀ l ∈ g.leases, l.released = true) → Quiescent g → ∀ c ∈ g.callers, c.phase = .served

/-! ## The condition on the steps -/

/-- A woken call other than `n` wants the workspace. -/
def WantedBeside (g : Guard Id) (n : Option Nat) (id : Id) : Prop :=
  ∃ (m : Nat) (c : Caller Id), some m ≠ n ∧ g.callers[m]? = some c ∧ c.phase = .woken ∧ id ∈ c.ids

def HeadWaits (g : Guard Id) (id : Id) : Prop :=
  ∃ t, (g.waiters id).head? = some t ∧ g.live t = true

def NobodyWaits (g : Guard Id) (id : Id) : Prop :=
  ∀ t ∈ g.waiters id, g.live t = false

/-- The claims of a group up to the first busy workspace. -/
def claimable (g : Guard Id) (ids : List Id) : List Id :=
  ids.takeWhile fun id ↦ (g.active id).isNone

/-- **No step drops a wake-up.**  Where somebody waits for a workspace that a lease gives up,
the head of the queue still waits, or a woken call wants the workspace.  Where somebody waits
for a free workspace of a woken call that fails, the call claims it before it fails and the
head of the queue still waits, or another woken call wants the workspace. -/
def handsOnStep (g : Guard Id) : GuardEvent Id → Prop
  | .release n => ∀ l, g.leases[n]? = some l → l.released = false → ∀ id ∈ l.ids,
      HeadWaits g id ∨ NobodyWaits g id ∨ WantedBeside g none id
  | .resume n => ∀ c, g.callers[n]? = some c → claimable g c.ids ≠ c.ids →
      ∀ id ∈ c.ids, (g.active id).isNone →
        (id ∈ claimable g c.ids ∧ HeadWaits g id) ∨ NobodyWaits g id ∨ WantedBeside g (some n) id
  | _ => True

theorem claimable_cons_of_free {g : Guard Id} {id : Id} (h : g.active id = none) (ids : List Id) :
    claimable g (id :: ids) = id :: claimable g ids := by
  rw [claimable, List.takeWhile_cons_of_pos (by rw [h]; rfl), claimable]

theorem free_of_mem_claimable {g : Guard Id} {ids : List Id} {id : Id}
    (h : id ∈ claimable g ids) : g.active id = none :=
  Option.isNone_iff_eq_none.mp (List.mem_takeWhile_imp (x := id) h)

theorem claimable_subset (g : Guard Id) (ids : List Id) : claimable g ids ⊆ ids :=
  (List.takeWhile_prefix _).subset

theorem claimable_congr {g g' : Guard Id} {ids : List Id}
    (h : ∀ id ∈ ids, g'.active id = g.active id) : claimable g' ids = claimable g ids := by
  induction ids with
  | nil => rfl
  | cons id ids ih =>
    rw [List.forall_mem_cons] at h
    simp only [claimable, List.takeWhile_cons, h.1]
    split_ifs
    · exact congrArg _ (ih h.2)
    · rfl

theorem claimable_eq_self_iff {g : Guard Id} {ids : List Id} :
    claimable g ids = ids ↔ ∀ id ∈ ids, g.active id = none := by
  rw [claimable, List.takeWhile_eq_self_iff]
  exact forall₂_congr fun _ _ ↦ Option.isNone_iff_eq_none

/-! ## Calls and tickets -/

theorem live_iff {g : Guard Id} {t : Ticket} : g.live t = true ↔
      ∃ c, g.callers[t.caller]? = some c ∧ c.phase = .waiting ∧ c.turn = t.turn := by
  rw [Guard.live, Option.any_eq_true]
  simp only [decide_eq_true_eq]

/-- A call after something was resolved: as before, or woken. -/
def MayWake (c c' : Caller Id) : Prop :=
  c' = c ∨ c.phase = .waiting ∧ c' = { c with phase := .woken }

namespace MayWake

variable {c c' c'' : Caller Id}

theorem refl (c : Caller Id) : MayWake c c := .inl rfl

theorem trans (h : MayWake c c') (h' : MayWake c' c'') : MayWake c c'' := by
  rcases h with rfl | ⟨hw, rfl⟩
  · exact h'
  rcases h' with rfl | ⟨hw', -⟩
  · exact .inr ⟨hw, rfl⟩
  · exact nomatch hw'

theorem ids_eq (h : MayWake c c') : c'.ids = c.ids := by
  rcases h with rfl | ⟨-, rfl⟩ <;> rfl

theorem turn_eq (h : MayWake c c') : c'.turn = c.turn := by
  rcases h with rfl | ⟨-, rfl⟩ <;> rfl

theorem of_waiting (h : MayWake c c') (hw : c'.phase = .waiting) : c' = c := by
  rcases h with rfl | ⟨-, rfl⟩
  · rfl
  · exact nomatch hw

theorem woken (h : MayWake c c') (hw : c.phase = .woken) : c' = c := by
  rcases h with rfl | ⟨hwait, -⟩
  · rfl
  · exact nomatch hwait.symm.trans hw

end MayWake

def WakeUps (callers callers' : List (Caller Id)) : Prop :=
  List.Forall₂ MayWake callers callers'

/-! ## What giving workspaces up does -/

/-- The workspaces `ids` become free, and the head of each one's queue is resolved. -/
structure Freed (ids : List Id) (g g' : Guard Id) : Prop where
  active_of_mem : ∀ id ∈ ids, g'.active id = none
  active_of_notMem : ∀ id, id ∉ ids → g'.active id = g.active id
  waiters_of_mem : ∀ id ∈ ids, g'.waiters id = (g.waiters id).tail
  waiters_of_notMem : ∀ id, id ∉ ids → g'.waiters id = g.waiters id
  callers : WakeUps g.callers g'.callers
  resolved : ∀ id ∈ ids, ∀ t, (g.waiters id).head? = some t → g'.live t = false
  leases : g'.leases = g.leases

section WakeUps

variable {callers callers' callers'' : List (Caller Id)}

theorem WakeUps.refl (callers : List (Caller Id)) : WakeUps callers callers :=
  List.forall₂_same.mpr fun c _ ↦ MayWake.refl c

theorem WakeUps.trans (h : WakeUps callers callers') (h' : WakeUps callers' callers'') :
    WakeUps callers callers'' := by
  induction h generalizing callers'' with
  | nil => exact h'
  | cons hc _ ih =>
    cases h' with
    | cons hc' h' => exact .cons (hc.trans hc') (ih h')

theorem wakeUps_resolve (t : Ticket) (callers : List (Caller Id)) :
    WakeUps callers (resolve t callers) := by
  refine List.forall₂_iff_get.mpr ⟨(List.length_modify _ _ _).symm, fun i h h' ↦ ?_⟩
  simp only [resolve, List.get_eq_getElem, List.getElem_modify]
  split_ifs with _ hc
  · exact .inr ⟨hc.1, rfl⟩
  · exact .refl _
  · exact .refl _

theorem WakeUps.getElem? (h : WakeUps callers callers') {n : Nat} {c : Caller Id}
    (hc : callers[n]? = some c) : ∃ c', callers'[n]? = some c' ∧ MayWake c c' := by
  obtain ⟨hn, rfl⟩ := List.getElem?_eq_some_iff.mp hc
  have hn' : n < callers'.length := h.length_eq ▸ hn
  exact ⟨callers'[n], List.getElem?_eq_getElem hn', h.get hn hn'⟩

theorem WakeUps.getElem?_of_right (h : WakeUps callers callers') {n : Nat} {c' : Caller Id}
    (hc' : callers'[n]? = some c') : ∃ c, callers[n]? = some c ∧ MayWake c c' := by
  obtain ⟨hn', rfl⟩ := List.getElem?_eq_some_iff.mp hc'
  have hn : n < callers.length := h.length_eq ▸ hn'
  exact ⟨callers[n], List.getElem?_eq_getElem hn, h.get hn hn'⟩

end WakeUps

theorem live_resolve (g : Guard Id) (t : Ticket) :
    ({ g with callers := resolve t g.callers } : Guard Id).live t = false := by
  refine Bool.eq_false_iff.mpr fun hlive ↦ ?_
  obtain ⟨c, hc, hw, ht⟩ := live_iff.mp hlive
  rw [resolve, List.getElem?_modify_eq, Option.map_eq_map, Option.map_eq_some_iff] at hc
  obtain ⟨c', -, rfl⟩ := hc
  split_ifs at hw ht with h
  exact h ⟨hw, ht⟩

theorem live_of_wakeUps {g g' : Guard Id} (h : WakeUps g.callers g'.callers) {t : Ticket}
    (ht : g'.live t = true) : g.live t = true := by
  obtain ⟨c', hc', hw, hturn⟩ := live_iff.mp ht
  obtain ⟨c, hc, hcc'⟩ := h.getElem?_of_right hc'
  obtain rfl := hcc'.of_waiting hw
  exact live_iff.mpr ⟨c', hc, hw, hturn⟩

namespace Freed

variable {ids ids' : List Id} {g g' g'' : Guard Id}

theorem refl (g : Guard Id) : Freed [] g g where
  active_of_mem := fun _ h ↦ nomatch h
  active_of_notMem := fun _ _ ↦ rfl
  waiters_of_mem := fun _ h ↦ nomatch h
  waiters_of_notMem := fun _ _ ↦ rfl
  callers := .refl _
  resolved := fun _ h ↦ nomatch h
  leases := rfl

theorem dead (h : Freed ids g g') {t : Ticket} (ht : g.live t = false) : g'.live t = false :=
  Bool.eq_false_iff.mpr fun hlive ↦ Bool.eq_false_iff.mp ht (live_of_wakeUps h.callers hlive)

theorem cons {id : Id} (h : Freed [id] g g') (h' : Freed ids g' g'') (hid : id ∉ ids) :
    Freed (id :: ids) g g'' where
  active_of_mem := by
    intro i hi
    by_cases hmem : i ∈ ids
    · exact h'.active_of_mem i hmem
    · obtain rfl := (List.mem_cons.mp hi).resolve_right hmem
      rw [h'.active_of_notMem i hmem, h.active_of_mem i (List.mem_singleton_self i)]
  active_of_notMem := by
    intro i hi
    rw [List.mem_cons, not_or] at hi
    rw [h'.active_of_notMem i hi.2, h.active_of_notMem i (by simpa using hi.1)]
  waiters_of_mem := by
    intro i hi
    rcases List.mem_cons.mp hi with rfl | hmem
    · rw [h'.waiters_of_notMem i hid, h.waiters_of_mem i (List.mem_singleton_self i)]
    have hne : i ∉ [id] := by
      rintro hi
      exact hid (List.mem_singleton.mp hi ▸ hmem)
    rw [h'.waiters_of_mem i hmem, h.waiters_of_notMem i hne]
  waiters_of_notMem := by
    intro i hi
    rw [List.mem_cons, not_or] at hi
    rw [h'.waiters_of_notMem i hi.2, h.waiters_of_notMem i (by simpa using hi.1)]
  callers := h.callers.trans h'.callers
  resolved := by
    intro i hi t ht
    rcases List.mem_cons.mp hi with rfl | hmem
    · exact h'.dead (h.resolved i (List.mem_singleton_self i) t ht)
    have hne : i ∉ [id] := by
      rintro hi
      exact hid (List.mem_singleton.mp hi ▸ hmem)
    exact h'.resolved i hmem t (h.waiters_of_notMem i hne ▸ ht)
  leases := h'.leases.trans h.leases

/-- The order in which the workspaces are listed does not matter. -/
theorem of_mem_iff (h : Freed ids g g') (hiff : ∀ id, id ∈ ids' ↔ id ∈ ids) : Freed ids' g g' where
  active_of_mem := fun id hid ↦ h.active_of_mem id ((hiff id).mp hid)
  active_of_notMem := fun id hid ↦ h.active_of_notMem id fun hmem ↦ hid ((hiff id).mpr hmem)
  waiters_of_mem := fun id hid ↦ h.waiters_of_mem id ((hiff id).mp hid)
  waiters_of_notMem := fun id hid ↦ h.waiters_of_notMem id fun hmem ↦ hid ((hiff id).mpr hmem)
  callers := h.callers
  resolved := fun id hid ↦ h.resolved id ((hiff id).mp hid)
  leases := h.leases

end Freed

section Operations

variable [LinearOrder Id] {ids : List Id} {operation : String} {g g' : Guard Id}

theorem freed_releaseOne {id : Id} (h : g.active id = some operation) :
    Freed [id] g (g.releaseOne operation id) := by
  rw [Guard.releaseOne, if_pos h]
  refine ⟨?_, ?_, ?_, ?_, ?_, ?_, rfl⟩
  · rintro i hi
    obtain rfl := List.mem_singleton.mp hi
    exact Function.update_self ..
  · intro i hi
    exact Function.update_of_ne (by simpa using hi) ..
  · rintro i hi
    obtain rfl := List.mem_singleton.mp hi
    exact Function.update_self ..
  · intro i hi
    exact Function.update_of_ne (by simpa using hi) ..
  · cases (g.waiters id).head? with
    | none => exact .refl _
    | some t => exact wakeUps_resolve t g.callers
  · rintro i hi t ht
    obtain rfl := List.mem_singleton.mp hi
    simp only [ht, Option.elim_some]
    exact live_resolve g t

theorem freed_foldl (hnodup : ids.Nodup) (h : ∀ id ∈ ids, g.active id = some operation) :
    Freed ids g (ids.foldl (Guard.releaseOne operation) g) := by
  induction ids generalizing g with
  | nil => exact .refl g
  | cons id ids ih =>
    obtain ⟨hid, hnodup⟩ := List.nodup_cons.mp hnodup
    have hone := freed_releaseOne (h id (List.mem_cons_self ..))
    refine hone.cons (ih hnodup fun i hi ↦ ?_) hid
    rw [hone.active_of_notMem i fun hmem ↦ hid (List.mem_singleton.mp hmem ▸ hi)]
    exact h i (List.mem_cons_of_mem _ hi)

/-! ## What claiming a group does -/

theorem claim_of_free (hnodup : ids.Nodup) (h : ∀ id ∈ ids, g.active id = none)
    (acquired : List Id) : g.claim operation acquired ids = (g.hold ids operation, true) := by
  induction ids generalizing g acquired with
  | nil =>
    rw [Guard.claim, Guard.hold]
    simp
  | cons id ids ih =>
    obtain ⟨hid, hnodup⟩ := List.nodup_cons.mp hnodup
    rw [List.forall_mem_cons] at h
    have hne : ∀ i ∈ ids, i ≠ id := fun i hi heq ↦ hid (heq ▸ hi)
    rw [Guard.claim, Guard.acquire, if_neg (by rw [h.1]; exact Bool.false_ne_true)]
    refine (ih hnodup (fun i hi ↦ ?_) _).trans ?_
    · exact (Function.update_of_ne (hne i hi) ..).trans (h.2 i hi)
    rw [Guard.hold, Guard.hold, Prod.mk.injEq, Guard.mk.injEq]
    refine ⟨⟨?_, rfl, rfl, rfl⟩, rfl⟩
    funext i
    by_cases hi : i = id
    · subst hi
      rw [if_neg hid, if_pos (List.mem_cons_self ..)]
      exact Function.update_self ..
    · simp only [List.mem_cons, hi, false_or]
      rw [Function.update_of_ne hi]

theorem claim_of_busy (acquired : List Id) (hnodup : (acquired ++ ids).Nodup)
    (hacq : ∀ id ∈ acquired, g.active id = some operation)
    (h : ¬ ∀ id ∈ ids, g.active id = none) :
    (g.claim operation acquired ids).2 = false ∧
      Freed (acquired ++ claimable g ids) g (g.claim operation acquired ids).1 := by
  induction ids generalizing g acquired with
  | nil => exact (h fun _ hmem ↦ nomatch hmem).elim
  | cons id ids ih =>
    rw [Guard.claim, Guard.acquire]
    by_cases hbusy : (g.active id).isSome
    · rw [if_pos hbusy]
      have hnone : claimable g (id :: ids) = [] := by
        rw [claimable, List.takeWhile_cons_of_neg (by simpa [Option.isSome_iff_ne_none] using hbusy)]
      rw [hnone, List.append_nil]
      exact ⟨rfl, freed_foldl (List.nodup_append.mp hnodup).1 hacq⟩
    · rw [if_neg hbusy]
      have hfree : g.active id = none := by simpa using hbusy
      set g₁ : Guard Id := { g with active := Function.update g.active id (some operation) }
        with hg₁
      have hnotacq : id ∉ acquired := fun hmem ↦
        (List.nodup_append.mp hnodup).2.2 id hmem id (List.mem_cons_self ..) rfl
      have hnotids : id ∉ ids := (List.nodup_cons.mp (List.nodup_append.mp hnodup).2.1).1
      have hother : ∀ i, i ≠ id → g₁.active i = g.active i := fun i hi ↦ Function.update_of_ne hi ..
      have hclaim : claimable g₁ ids = claimable g ids :=
        claimable_congr fun i hi ↦ hother i fun heq ↦ hnotids (heq ▸ hi)
      have hih := ih (g := g₁) (id :: acquired)
        (by simpa using (List.perm_middle.nodup_iff.mp hnodup)) ?_ ?_
      · refine ⟨hih.1, ?_⟩
        have hfreed := hih.2
        rw [hclaim] at hfreed
        rw [claimable_cons_of_free hfree]
        have hiff : ∀ i, i ∈ acquired ++ id :: claimable g ids ↔
            i ∈ id :: acquired ++ claimable g ids := fun i ↦ by simp [or_left_comm]
        exact
          { (hfreed.of_mem_iff hiff) with
            active_of_notMem := fun i hi ↦
              (hfreed.active_of_notMem i fun hmem ↦ hi ((hiff i).mpr hmem)).trans
                (hother i fun heq ↦ hi (by simp [heq])) }
      · rintro i (_ | ⟨_, hi⟩)
        · exact Function.update_self ..
        · exact (hother i fun heq ↦ hnotacq (heq ▸ hi)).trans (hacq i hi)
      · refine fun hall ↦ h fun i hi ↦ ?_
        rcases List.mem_cons.mp hi with rfl | hi
        · exact hfree
        · exact (hother i fun heq ↦ hnotids (heq ▸ hi)).symm.trans (hall i hi)

theorem acquireMany_of_free (hnodup : ids.Nodup) (h : ∀ id ∈ ids, g.active id = none) :
    g.acquireMany ids operation = (g.hold ids operation, true) :=
  claim_of_free hnodup h []

theorem acquireMany_of_busy (hnodup : ids.Nodup) (operation : String)
    (h : ¬ ∀ id ∈ ids, g.active id = none) :
    (g.acquireMany ids operation).2 = false ∧
      Freed (claimable g ids) g (g.acquireMany ids operation).1 :=
  claim_of_busy [] hnodup (fun _ hmem ↦ nomatch hmem) h

end Operations

/-! ## What is held -/

/-- The workspaces that are held are those of the unreleased leases, each of one.  Leases and
calls name a workspace once. -/
structure Covered (g : Guard Id) : Prop where
  groups : ∀ c ∈ g.callers, c.ids.Nodup
  nodup : ∀ l ∈ g.leases, l.ids.Nodup
  held : ∀ l ∈ g.leases, l.released = false → ∀ id ∈ l.ids, g.active id = some l.operation
  exclusive : Exclusive g
  covered : ∀ id, (g.active id).isSome → ∃ l ∈ g.leases, l.released = false ∧ id ∈ l.ids

namespace Covered

variable {g g' : Guard Id}

theorem congr (h : Covered g) (hgroups : ∀ c ∈ g'.callers, c.ids.Nodup)
    (hactive : g'.active = g.active) (hleases : g'.leases = g.leases) : Covered g' := by
  obtain ⟨-, hnodup, hheld, hexclusive, hcovered⟩ := h
  refine ⟨hgroups, ?_, ?_, ?_, ?_⟩
  · rwa [hleases]
  · rwa [hleases, hactive]
  · rwa [Exclusive, hleases]
  · rwa [hleases, hactive]

theorem groups_freed (h : Covered g) {ids : List Id} {g₁ : Guard Id}
    (hfreed : Freed ids g₁ g') (hcallers : g₁.callers = g.callers) :
    ∀ c ∈ g'.callers, c.ids.Nodup := by
  intro c' hc'
  obtain ⟨n, hn⟩ := List.mem_iff_getElem?.mp hc'
  obtain ⟨c, hc, hcc'⟩ := hfreed.callers.getElem?_of_right hn
  rw [hcc'.ids_eq]
  exact h.groups c (hcallers ▸ List.mem_of_getElem? hc)

theorem groups_set (h : Covered g) {n : Nat} {c c' : Caller Id} (hnodup : c.ids.Nodup)
    (hids : c'.ids = c.ids) : ∀ c ∈ g.callers.set n c', c.ids.Nodup := by
  intro c₁ hc₁
  rcases List.mem_or_eq_of_mem_set hc₁ with hc₁ | rfl
  · exact h.groups c₁ hc₁
  · exact hids ▸ hnodup

theorem enter (h : Covered g) {c : Caller Id} (hnodup : c.ids.Nodup) :
    Covered { g with callers := g.callers ++ [c] } := by
  refine h.congr (fun c' hc' ↦ ?_) rfl rfl
  rcases List.mem_append.mp hc' with hc' | hc'
  · exact h.groups c' hc'
  · exact List.mem_singleton.mp hc' ▸ hnodup

theorem lend (h : Covered g) {ids : List Id} {operation : String}
    (hgroups : ∀ c ∈ g'.callers, c.ids.Nodup) (hnodup : ids.Nodup)
    (hfree : ∀ id ∈ ids, g.active id = none) [DecidableEq Id]
    (hactive : g'.active = fun id ↦ if id ∈ ids then some operation else g.active id)
    (hleases : g'.leases = g.leases ++ [⟨ids, operation, false⟩]) : Covered g' := by
  have hother : ∀ l ∈ g.leases, l.released = false → ∀ id ∈ l.ids, id ∉ ids := by
    intro l hl hr id hid hmem
    exact nomatch (h.held l hl hr id hid).symm.trans (hfree id hmem)
  refine ⟨hgroups, ?_, ?_, ?_, ?_⟩
  · intro l hl
    rw [hleases, List.mem_append, List.mem_singleton] at hl
    rcases hl with hl | rfl
    · exact h.nodup l hl
    · exact hnodup
  · intro l hl hr id hid
    rw [hleases, List.mem_append, List.mem_singleton] at hl
    simp only [hactive]
    rcases hl with hl | rfl
    · rw [if_neg (hother l hl hr id hid)]
      exact h.held l hl hr id hid
    · exact if_pos hid
  · intro n m l l' hn hm hr hr' id hid hid'
    rw [hleases, List.getElem?_append] at hn hm
    split_ifs at hn hm with hlt hlt' hlt'
    · exact h.exclusive n m l l' hn hm hr hr' id hid hid'
    · obtain rfl := List.mem_singleton.mp (List.mem_of_getElem? hm)
      exact (hother l (List.mem_of_getElem? hn) hr id hid hid').elim
    · obtain rfl := List.mem_singleton.mp (List.mem_of_getElem? hn)
      exact (hother l' (List.mem_of_getElem? hm) hr' id hid' hid).elim
    · have hn' := (List.getElem?_eq_some_iff.mp hn).1
      have hm' := (List.getElem?_eq_some_iff.mp hm).1
      simp only [List.length_singleton] at hn' hm'
      omega
  · intro id hid
    simp only [hactive] at hid
    by_cases hmem : id ∈ ids
    · exact ⟨_, hleases ▸ List.mem_append_right _ (List.mem_singleton_self _), rfl, hmem⟩
    rw [if_neg hmem] at hid
    obtain ⟨l, hl, hr, hid⟩ := h.covered id hid
    exact ⟨l, hleases ▸ List.mem_append_left _ hl, hr, hid⟩

/-- The claims of a group that failed are given up again: nothing has changed. -/
theorem collision (h : Covered g) {ids : List Id} (hfreed : Freed (claimable g ids) g g') :
    Covered g' := by
  refine h.congr (h.groups_freed hfreed rfl) (funext fun id ↦ ?_) hfreed.leases
  by_cases hid : id ∈ claimable g ids
  · rw [hfreed.active_of_mem id hid, free_of_mem_claimable hid]
  · exact hfreed.active_of_notMem id hid

theorem release (h : Covered g) {n : Nat} {l : Lease Id} (hn : g.leases[n]? = some l)
    (hr : l.released = false)
    (hfreed : Freed l.ids { g with leases := g.leases.set n { l with released := true } } g') :
    Covered g' := by
  have hlen : n < g.leases.length := (List.getElem?_eq_some_iff.mp hn).1
  have hleases := hfreed.leases
  have hactive := hfreed.active_of_notMem
  simp only at hleases hactive
  -- An unreleased lease is one of the others.
  have hother : ∀ (m : Nat) (l' : Lease Id), g'.leases[m]? = some l' → l'.released = false →
      m ≠ n ∧ g.leases[m]? = some l' := by
    intro m l' hm hr'
    rw [hleases, List.getElem?_set] at hm
    split_ifs at hm with heq
    · cases hm
      exact nomatch hr'
    · exact ⟨fun h ↦ heq h.symm, hm⟩
  have hnotMem : ∀ (m : Nat) (l' : Lease Id), g'.leases[m]? = some l' → l'.released = false →
      ∀ id ∈ l'.ids, id ∉ l.ids := by
    intro m l' hm hr' id hid hmem
    obtain ⟨hne, hm⟩ := hother m l' hm hr'
    exact hne (h.exclusive m n l' l hm hn hr' hr id hid hmem)
  refine ⟨h.groups_freed hfreed rfl, ?_, ?_, ?_, ?_⟩
  · intro l' hl'
    rw [hleases] at hl'
    rcases List.mem_or_eq_of_mem_set hl' with hl' | rfl
    · exact h.nodup l' hl'
    · exact h.nodup l (List.mem_of_getElem? hn)
  · intro l' hl' hr' id hid
    obtain ⟨m, hm⟩ := List.mem_iff_getElem?.mp hl'
    rw [hactive id (hnotMem m l' hm hr' id hid)]
    exact h.held l' (List.mem_of_getElem? (hother m l' hm hr').2) hr' id hid
  · intro m k l₁ l₂ hm hk hr₁ hr₂
    exact h.exclusive m k l₁ l₂ (hother m l₁ hm hr₁).2 (hother k l₂ hk hr₂).2 hr₁ hr₂
  · intro id hid
    have hmem : id ∉ l.ids := by
      intro hmem
      rw [hfreed.active_of_mem id hmem] at hid
      exact nomatch hid
    rw [hactive id hmem] at hid
    obtain ⟨l', hl', hr', hid'⟩ := h.covered id hid
    obtain ⟨m, hm⟩ := List.mem_iff_getElem?.mp hl'
    have hne : n ≠ m := by
      rintro rfl
      cases hn.symm.trans hm
      exact hmem hid'
    refine ⟨l', ?_, hr', hid'⟩
    rw [hleases]
    exact List.mem_of_getElem? ((List.getElem?_set_ne hne).trans hm)

end Covered

/-! ## Who waits -/

/-- The tickets are of calls that want the workspace, and whoever waits has one. -/
structure Queued (g : Guard Id) : Prop where
  own : ∀ id, ∀ t ∈ g.waiters id, ∃ c, g.callers[t.caller]? = some c ∧ id ∈ c.ids ∧ t.turn ≤ c.turn
  queued : ∀ (n : Nat) (c : Caller Id), g.callers[n]? = some c → c.phase = .waiting →
    ∃ id ∈ c.ids, ⟨n, c.turn⟩ ∈ g.waiters id

/-- Whoever waits for a free workspace has a woken call other than `n` before it. -/
def Wanted (g : Guard Id) (n : Option Nat) : Prop :=
  ∀ id, g.active id = none → NobodyWaits g id ∨ WantedBeside g n id

/-- **The invariant**: whoever waits has a ticket, and where somebody waits for a free
workspace, a woken call wants it. -/
structure Attended (g : Guard Id) : Prop where
  queued : Queued g
  wanted : Wanted g none

theorem Attended.noLostWakeUp {g : Guard Id} (h : Attended g) : NoLostWakeUp g := by
  intro hquiet c hc hwait
  obtain ⟨n, hn⟩ := List.mem_iff_getElem?.mp hc
  obtain ⟨id, hid, hticket⟩ := h.queued.queued n c hn hwait
  refine ⟨id, hid, Option.isSome_iff_ne_none.mpr fun hfree ↦ ?_⟩
  rcases h.wanted id hfree with hnobody | ⟨m, c', -, hm, hwoken, -⟩
  · have hdead := hnobody _ hticket
    rw [live_iff.mpr ⟨c, hn, hwait, rfl⟩] at hdead
    exact nomatch hdead
  · exact hquiet c' (List.mem_of_getElem? hm) hwoken

theorem Covered.everybodyServed {g : Guard Id} (h : Covered g) (hlost : NoLostWakeUp g) :
    EverybodyServed g := by
  intro hreleased hquiet c hc
  cases hphase : c.phase with
  | woken => exact (hquiet c hc hphase).elim
  | served => rfl
  | waiting =>
    obtain ⟨id, -, hheld⟩ := hlost hquiet c hc hphase
    obtain ⟨l, hl, hr, -⟩ := h.covered id hheld
    exact nomatch hr.symm.trans (hreleased l hl)

/-! ## Giving workspaces up -/

section GivingUp

variable {ids : List Id} {g g' : Guard Id}

theorem Queued.freed (h : Queued g) (hfreed : Freed ids g g') : Queued g' := by
  have hmem : ∀ id, ∀ t ∈ g'.waiters id, t ∈ g.waiters id := by
    intro id t ht
    by_cases hid : id ∈ ids
    · rw [hfreed.waiters_of_mem id hid] at ht
      exact List.mem_of_mem_tail ht
    · rwa [hfreed.waiters_of_notMem id hid] at ht
  refine ⟨?_, ?_⟩
  · intro id t ht
    obtain ⟨c, hc, hid, hturn⟩ := h.own id t (hmem id t ht)
    obtain ⟨c', hc', hcc'⟩ := hfreed.callers.getElem? hc
    exact ⟨c', hc', hcc'.ids_eq ▸ hid, hcc'.turn_eq ▸ hturn⟩
  intro n c hn hwait
  obtain ⟨c', hn', hcc'⟩ := hfreed.callers.getElem?_of_right hn
  obtain rfl := hcc'.of_waiting hwait
  obtain ⟨id, hid, hticket⟩ := h.queued n c hn' hwait
  refine ⟨id, hid, ?_⟩
  by_cases hmem : id ∈ ids
  · rw [hfreed.waiters_of_mem id hmem]
    -- The head of the queue was resolved; the ticket of a call that waits is not it.
    cases hqueue : g.waiters id with
    | nil => exact nomatch hqueue ▸ hticket
    | cons t queue =>
      rw [hqueue] at hticket
      rcases List.mem_cons.mp hticket with rfl | htail
      · have hdead := hfreed.resolved id hmem _ (by rw [hqueue]; rfl)
        rw [live_iff.mpr ⟨c, hn, hwait, rfl⟩] at hdead
        exact nomatch hdead
      · exact htail
  · rwa [hfreed.waiters_of_notMem id hmem]

theorem WantedBeside.freed {n : Option Nat} {id : Id} (h : WantedBeside g n id)
    (hfreed : Freed ids g g') : WantedBeside g' n id := by
  obtain ⟨m, c, hne, hm, hwoken, hid⟩ := h
  obtain ⟨c', hm', hcc'⟩ := hfreed.callers.getElem? hm
  obtain rfl := hcc'.woken hwoken
  exact ⟨m, c', hne, hm', hwoken, hid⟩

theorem NobodyWaits.freed {id : Id} (h : NobodyWaits g id) (hfreed : Freed ids g g') :
    NobodyWaits g' id := by
  intro t ht
  refine hfreed.dead (h t ?_)
  by_cases hid : id ∈ ids
  · rw [hfreed.waiters_of_mem id hid] at ht
    exact List.mem_of_mem_tail ht
  · rwa [hfreed.waiters_of_notMem id hid] at ht

theorem HeadWaits.freed (h : Queued g) {n : Option Nat} {id : Id} (hid : id ∈ ids)
    (hhead : HeadWaits g id) (hfreed : Freed ids g g')
    (hn : ∀ c m, some m = n → g.callers[m]? = some c → c.phase ≠ .waiting) :
    WantedBeside g' n id := by
  obtain ⟨t, ht, hlive⟩ := hhead
  obtain ⟨c, hc, hwait, hturn⟩ := live_iff.mp hlive
  obtain ⟨c', hc', hcc'⟩ := hfreed.callers.getElem? hc
  obtain ⟨c₀, hc₀, hmem, -⟩ := h.own id t (List.mem_of_head? ht)
  cases hc.symm.trans hc₀
  refine ⟨t.caller, c', fun heq ↦ hn c t.caller heq hc hwait, hc', ?_, hcc'.ids_eq ▸ hmem⟩
  rcases hcc' with rfl | ⟨-, rfl⟩
  · have hdead := hfreed.resolved id hid t ht
    rw [live_iff.mpr ⟨c', hc', hwait, hturn⟩] at hdead
    exact nomatch hdead
  · rfl

theorem Wanted.freed (h : Queued g) {n : Option Nat} (hfreed : Freed ids g g')
    (hn : ∀ c m, some m = n → g.callers[m]? = some c → c.phase ≠ .waiting)
    (hids : ∀ id ∈ ids, HeadWaits g id ∨ NobodyWaits g id ∨ WantedBeside g n id)
    (hothers : ∀ id, id ∉ ids → g.active id = none → NobodyWaits g id ∨ WantedBeside g n id) :
    Wanted g' n := by
  intro id hfree
  by_cases hid : id ∈ ids
  · rcases hids id hid with hhead | hnobody | hwanted
    · exact .inr (hhead.freed h hid hfreed hn)
    · exact .inl (hnobody.freed hfreed)
    · exact .inr (hwanted.freed hfreed)
  · rw [hfreed.active_of_notMem id hid] at hfree
    exact (hothers id hid hfree).imp (·.freed hfreed) (·.freed hfreed)

theorem Attended.collision (h : Attended g) {ids : List Id}
    (hfreed : Freed (claimable g ids) g g') : Attended g' :=
  ⟨h.queued.freed hfreed, .freed h.queued hfreed nofun
    (fun id hid ↦ .inr (h.wanted id (free_of_mem_claimable hid))) fun id _ hfree ↦ h.wanted id hfree⟩

end GivingUp

/-! ## A new call -/

section Enter

variable {g : Guard Id} {c : Caller Id}

theorem getElem?_of_enter (hc : c.phase ≠ .waiting) {m : Nat} {c' : Caller Id}
    (hm : (g.callers ++ [c])[m]? = some c') (hwait : c'.phase = .waiting) :
    g.callers[m]? = some c' := by
  rw [List.getElem?_append] at hm
  split_ifs at hm
  · exact hm
  · obtain rfl := List.mem_singleton.mp (List.mem_of_getElem? hm)
    exact (hc hwait).elim

theorem NobodyWaits.enter {id : Id} (h : NobodyWaits g id) (hc : c.phase ≠ .waiting) :
    NobodyWaits { g with callers := g.callers ++ [c] } id := by
  intro t ht
  refine Bool.eq_false_iff.mpr fun hlive ↦ Bool.eq_false_iff.mp (h t ht) ?_
  obtain ⟨c', hc', hwait, hturn⟩ := live_iff.mp hlive
  exact live_iff.mpr ⟨c', getElem?_of_enter hc hc' hwait, hwait, hturn⟩

theorem WantedBeside.enter {id : Id} (h : WantedBeside g none id) :
    WantedBeside { g with callers := g.callers ++ [c] } (some g.callers.length) id := by
  obtain ⟨m, c', -, hm, hwoken, hid⟩ := h
  have hlen : m < g.callers.length := (List.getElem?_eq_some_iff.mp hm).1
  exact ⟨m, c', fun heq ↦ hlen.ne (Option.some.inj heq),
    (List.getElem?_append_left hlen).trans hm, hwoken, hid⟩

theorem Attended.enter (h : Attended g) (hwoken : c.phase = .woken) :
    Attended { g with callers := g.callers ++ [c] } := by
  have hc : c.phase ≠ .waiting := fun hwait ↦ nomatch hwoken.symm.trans hwait
  refine ⟨⟨?_, ?_⟩, ?_⟩
  · intro id t ht
    obtain ⟨c', hc', hid⟩ := h.queued.own id t ht
    have hlen : t.caller < g.callers.length := (List.getElem?_eq_some_iff.mp hc').1
    exact ⟨c', (List.getElem?_append_left hlen).trans hc', hid⟩
  · intro m c' hm hwait
    exact h.queued.queued m c' (getElem?_of_enter hc hm hwait) hwait
  · intro id hfree
    refine (h.wanted id hfree).imp (·.enter hc) fun hwanted ↦ ?_
    obtain ⟨m, c', -, hrest⟩ := hwanted.enter (c := c)
    exact ⟨m, c', nofun, hrest⟩

end Enter

/-! ## One turn of a call -/

theorem live_of_set {g g' : Guard Id} {n : Nat} {c' : Caller Id} (hc' : c'.phase ≠ .waiting)
    (hcallers : g'.callers = g.callers.set n c') {t : Ticket} (ht : g'.live t = true) :
    g.live t = true := by
  obtain ⟨c₁, hc₁, hwait, hturn⟩ := live_iff.mp ht
  rw [hcallers, List.getElem?_set] at hc₁
  split_ifs at hc₁ with heq
  · cases hc₁
    exact (hc' hwait).elim
  · exact live_iff.mpr ⟨c₁, hc₁, hwait, hturn⟩

section Turn

variable [LinearOrder Id] {g : Guard Id} {n : Nat} {c : Caller Id}

theorem Attended.serve (h : Attended g) (hn : g.callers[n]? = some c) : Attended (g.serve n c) := by
  obtain ⟨⟨hown, hqueued⟩, hwanted⟩ := h
  have hlen : n < g.callers.length := (List.getElem?_eq_some_iff.mp hn).1
  refine ⟨⟨?_, ?_⟩, ?_⟩
  · intro id t ht
    obtain ⟨c', hc', hid, hturn⟩ := hown id t ht
    by_cases heq : n = t.caller
    · obtain rfl := heq
      cases hn.symm.trans hc'
      exact ⟨_, List.getElem?_set_self hlen, hid, hturn⟩
    · exact ⟨c', (List.getElem?_set_ne heq).trans hc', hid, hturn⟩
  · intro m c' hm hwait
    rw [Guard.serve, Guard.lend, List.getElem?_set] at hm
    split_ifs at hm with heq
    · cases hm
      exact nomatch hwait
    · exact hqueued m c' hm hwait
  · intro id hfree
    simp only [Guard.serve, Guard.lend, Guard.hold] at hfree
    split_ifs at hfree with hid
    refine (hwanted id hfree).imp (fun hnobody t ht ↦ ?_) fun hbeside ↦ ?_
    · refine Bool.eq_false_iff.mpr fun hlive ↦ Bool.eq_false_iff.mp (hnobody t ht) ?_
      exact live_of_set (g := g) (show Phase.served ≠ .waiting from nofun) rfl hlive
    obtain ⟨m, c', hne, hm, hw, hid'⟩ := hbeside
    have hnm : n ≠ m := by
      rintro rfl
      cases hn.symm.trans hm
      exact hid hid'
    exact ⟨m, c', hne, (List.getElem?_set_ne hnm).trans hm, hw, hid'⟩

theorem Queued.suspend (h : Queued g) (hn : g.callers[n]? = some c)
    (hbusy : ∃ id ∈ c.ids, (g.active id).isSome)
    (hwanted : Wanted g (some n)) : Attended (g.suspend n c) := by
  obtain ⟨hown, hqueued⟩ := h
  have hlen : n < g.callers.length := (List.getElem?_eq_some_iff.mp hn).1
  have hgrows : ∀ id, ∀ t ∈ g.waiters id, t ∈ (g.suspend n c).waiters id := by
    intro id t ht
    simp only [Guard.suspend]
    split_ifs
    · exact List.mem_append_left _ ht
    · exact ht
  refine ⟨⟨?_, ?_⟩, ?_⟩
  · intro id t ht
    have hcases : t ∈ g.waiters id ∨ id ∈ c.ids ∧ t = ⟨n, c.turn + 1⟩ := by
      simp only [Guard.suspend] at ht
      split_ifs at ht with hid
      · exact (List.mem_append.mp ht).imp_right fun ht ↦ ⟨hid.1, List.mem_singleton.mp ht⟩
      · exact .inl ht
    rcases hcases with ht | ⟨hid, rfl⟩
    · obtain ⟨c', hc', hid, hturn⟩ := hown id t ht
      by_cases heq : n = t.caller
      · obtain rfl := heq
        cases hn.symm.trans hc'
        exact ⟨_, List.getElem?_set_self hlen, hid, Nat.le_succ_of_le hturn⟩
      · exact ⟨c', (List.getElem?_set_ne heq).trans hc', hid, hturn⟩
    · exact ⟨_, List.getElem?_set_self hlen, hid, le_rfl⟩
  · intro m c' hm hwait
    rw [Guard.suspend, List.getElem?_set] at hm
    split_ifs at hm with heq
    · obtain rfl := heq
      cases hm
      obtain ⟨id, hid, hheld⟩ := hbusy
      refine ⟨id, hid, ?_⟩
      simp only [Guard.suspend]
      rw [if_pos ⟨hid, hheld⟩]
      exact List.mem_append_right _ (List.mem_singleton_self _)
    · obtain ⟨id, hid, hticket⟩ := hqueued m c' hm hwait
      exact ⟨id, hid, hgrows id _ hticket⟩
  · intro id hfree
    have hqueue : (g.suspend n c).waiters id = g.waiters id := by
      have hnot : ¬ (id ∈ c.ids ∧ (g.active id).isSome) := by
        rintro ⟨-, hheld⟩
        exact nomatch (show g.active id = none from hfree) ▸ hheld
      exact if_neg hnot
    refine (hwanted id hfree).imp (fun hnobody t ht ↦ ?_) fun hbeside ↦ ?_
    · rw [hqueue] at ht
      refine Bool.eq_false_iff.mpr fun hlive ↦ Bool.eq_false_iff.mp (hnobody t ht) ?_
      obtain ⟨c₁, hc₁, hwait, hturn⟩ := live_iff.mp hlive
      rw [Guard.suspend, List.getElem?_set] at hc₁
      split_ifs at hc₁ with heq
      · obtain ⟨c₂, hc₂, -, hle⟩ := hown id t ht
        rw [← heq, hn] at hc₂
        cases hc₁
        cases hc₂
        exact absurd hturn (by simp only; omega)
      · exact live_iff.mpr ⟨c₁, hc₁, hwait, hturn⟩
    · obtain ⟨m, c', hne, hm, hw, hid'⟩ := hbeside
      have hnm : n ≠ m := fun heq ↦ hne (congrArg some heq.symm)
      exact ⟨m, c', nofun, (List.getElem?_set_ne hnm).trans hm, hw, hid'⟩

theorem attempt_of_free (hnodup : c.ids.Nodup) (h : ∀ id ∈ c.ids, g.active id = none) :
    g.attempt n c = g.serve n c := by
  rw [Guard.attempt, acquireMany_of_free hnodup h]
  rfl

theorem attempt_of_busy (hnodup : c.ids.Nodup) (h : ¬ ∀ id ∈ c.ids, g.active id = none) :
    ∃ g', Freed (claimable g c.ids) g g' ∧ g.attempt n c = g'.suspend n c := by
  obtain ⟨hfalse, hfreed⟩ := acquireMany_of_busy hnodup c.operation h
  refine ⟨_, hfreed, ?_⟩
  rw [Guard.attempt]
  cases hres : g.acquireMany c.ids c.operation with
  | mk g' ok =>
    rw [hres] at hfalse
    obtain rfl : ok = false := hfalse
    rfl

/-- **One turn of a woken call** keeps the invariant, when the workspaces it leaves free are
nobody's or somebody else's. -/
theorem Attended.attempt (h : Attended g) (hn : g.callers[n]? = some c) (hnodup : c.ids.Nodup)
    (hwoken : c.phase = .woken)
    (hok : claimable g c.ids ≠ c.ids → ∀ id ∈ c.ids, g.active id = none →
      (id ∈ claimable g c.ids ∧ HeadWaits g id) ∨ NobodyWaits g id ∨ WantedBeside g (some n) id) :
    Attended (g.attempt n c) := by
  by_cases hfree : ∀ id ∈ c.ids, g.active id = none
  · rw [attempt_of_free hnodup hfree]
    exact h.serve hn
  obtain ⟨g', hfreed, hattempt⟩ := attempt_of_busy (n := n) hnodup hfree
  have hok := hok fun hself ↦ hfree (claimable_eq_self_iff.mp hself)
  obtain ⟨c', hn', hcc'⟩ := hfreed.callers.getElem? hn
  obtain rfl := hcc'.woken hwoken
  rw [hattempt]
  refine (h.queued.freed hfreed).suspend hn' ?_ ?_
  · push Not at hfree
    obtain ⟨id, hid, hheld⟩ := hfree
    refine ⟨id, hid, ?_⟩
    rw [hfreed.active_of_notMem id fun hmem ↦ hheld (free_of_mem_claimable hmem)]
    exact Option.isSome_iff_ne_none.mpr hheld
  · refine Wanted.freed h.queued hfreed ?_ ?_ ?_
    · rintro c₁ m heq hm hwait
      obtain rfl := Option.some.inj heq
      cases hn.symm.trans hm
      exact nomatch hwoken.symm.trans hwait
    · intro id hid
      rcases hok id (claimable_subset g _ hid) (free_of_mem_claimable hid) with h | h
      · exact .inl h.2
      · exact .inr h
    · intro id hid hnone
      by_cases hmem : id ∈ c'.ids
      · rcases hok id hmem hnone with h | h
        · exact (hid h.1).elim
        · exact h
      refine (h.wanted id hnone).imp_right fun ⟨m, c₁, _, hm, hw, hid₁⟩ ↦ ?_
      refine ⟨m, c₁, fun heq ↦ hmem ?_, hm, hw, hid₁⟩
      obtain rfl := Option.some.inj heq
      cases hn.symm.trans hm
      exact hid₁

theorem Covered.attempt (h : Covered g) (hnodup : c.ids.Nodup) : Covered (g.attempt n c) := by
  by_cases hfree : ∀ id ∈ c.ids, g.active id = none
  · rw [attempt_of_free hnodup hfree]
    exact h.lend (h.groups_set hnodup rfl) hnodup hfree rfl rfl
  obtain ⟨g', hfreed, hattempt⟩ := attempt_of_busy (n := n) hnodup hfree
  have hcollision := h.collision hfreed
  rw [hattempt]
  exact hcollision.congr (hcollision.groups_set hnodup rfl) rfl rfl

theorem Attended.call (h : Attended g) {ids : List Id} {operation : String}
    (hnodup : ids.Nodup) : Attended (g.call ids operation) := by
  rw [Guard.call]
  refine (h.enter rfl).attempt List.getElem?_concat_length hnodup rfl fun _ id _ hfree ↦ .inr ?_
  exact (h.wanted id hfree).imp (·.enter nofun) (·.enter)

theorem Covered.call (h : Covered g) {ids : List Id} {operation : String}
    (hnodup : ids.Nodup) : Covered (g.call ids operation) :=
  (h.enter hnodup).attempt hnodup

end Turn

/-! ## The runs -/

section Runs

variable [LinearOrder Id] {g g' : Guard Id}

theorem sortedIds_nodup (ids : List Id) : (sortedIds ids).Nodup :=
  (List.perm_insertionSort _ _).nodup_iff.mpr (List.nodup_dedup ids)

theorem freed_release (h : Covered g) {n : Nat} {l : Lease Id} (hn : g.leases[n]? = some l)
    (hr : l.released = false) :
    Freed l.ids { g with leases := g.leases.set n { l with released := true } } (g.release n) := by
  have hl : l ∈ g.leases := List.mem_of_getElem? hn
  set g₁ : Guard Id := { g with leases := g.leases.set n { l with released := true } } with hg₁
  have hfold : Freed l.ids.reverse g₁ (l.ids.reverse.foldl (Guard.releaseOne l.operation) g₁) :=
    freed_foldl (List.nodup_reverse.mpr (h.nodup l hl))
      fun id hid ↦ h.held l hl hr id (List.mem_reverse.mp hid)
  rw [Guard.release, hn]
  simp only [hr, Bool.false_eq_true, if_false]
  exact hfold.of_mem_iff fun id ↦ List.mem_reverse.symm

theorem release_of_not {n : Nat} (h : ¬ ∃ l, g.leases[n]? = some l ∧ l.released = false) :
    g.release n = g := by
  rw [Guard.release]
  cases hn : g.leases[n]? with
  | none => rfl
  | some l =>
    exact if_pos ((Bool.not_eq_false _).mp fun hr ↦ h ⟨l, hn, hr⟩)

theorem Attended.release (h : Attended g) (hcovered : Covered g) {n : Nat}
    (hok : handsOnStep g (.release n)) : Attended (g.release n) := by
  by_cases hl : ∃ l, g.leases[n]? = some l ∧ l.released = false
  · obtain ⟨l, hn, hr⟩ := hl
    have hfreed := freed_release hcovered hn hr
    have hqueued : Queued { g with leases := g.leases.set n { l with released := true } } :=
      ⟨h.queued.own, h.queued.queued⟩
    exact ⟨hqueued.freed hfreed, .freed hqueued hfreed nofun (hok l hn hr)
      fun id _ hfree ↦ h.wanted id hfree⟩
  · rwa [release_of_not hl]

theorem Covered.release_step (h : Covered g) (n : Nat) : Covered (g.release n) := by
  by_cases hl : ∃ l, g.leases[n]? = some l ∧ l.released = false
  · obtain ⟨l, hn, hr⟩ := hl
    exact h.release hn hr (freed_release h hn hr)
  · rwa [release_of_not hl]

theorem Attended.hold (h : Attended g) (ids : List Id) (operation : String) :
    Attended ((g.hold ids operation).lend ids operation) := by
  refine ⟨⟨h.queued.own, h.queued.queued⟩, fun id hfree ↦ ?_⟩
  simp only [Guard.lend, Guard.hold] at hfree
  split_ifs at hfree
  exact h.wanted id hfree

theorem step_acquire (g : Guard Id) (id : Id) (operation : String) :
    g.step (.acquire id operation) = some (if g.active id = none then
      (g.hold [id] operation).lend [id] operation else g) := by
  rw [Guard.step, Guard.acquire]
  cases hactive : g.active id with
  | some _ => rfl
  | none =>
    have hupdate : Function.update g.active id (some operation) =
        fun i ↦ if i ∈ [id] then some operation else g.active i := by
      funext i
      simp only [Function.update_apply, List.mem_singleton]
    rw [if_neg (by decide), if_pos rfl, hupdate]
    rfl

theorem step_acquireMany_of_free {ids : List Id} {operation : String}
    (h : ∀ id ∈ sortedIds ids, g.active id = none) :
    g.step (.acquireMany ids operation) =
      some ((g.hold (sortedIds ids) operation).lend (sortedIds ids) operation) := by
  rw [Guard.step, acquireMany_of_free (sortedIds_nodup ids) h]

theorem step_acquireMany_of_busy {ids : List Id} (operation : String)
    (h : ¬ ∀ id ∈ sortedIds ids, g.active id = none) :
    ∃ g', Freed (claimable g (sortedIds ids)) g g' ∧
      g.step (.acquireMany ids operation) = some g' := by
  obtain ⟨hfalse, hfreed⟩ := acquireMany_of_busy (sortedIds_nodup ids) operation h
  refine ⟨_, hfreed, ?_⟩
  rw [Guard.step]
  cases hres : g.acquireMany (sortedIds ids) operation with
  | mk g' ok =>
    rw [hres] at hfalse
    obtain rfl : ok = false := hfalse
    rfl

theorem step_resume_cases {n : Nat} (h : g.step (.resume n) = some g') :
    ∃ c, g.callers[n]? = some c ∧ c.phase = .woken ∧ g' = g.attempt n c := by
  rw [Guard.step] at h
  cases hn : g.callers[n]? with
  | none =>
    rw [hn] at h
    exact nomatch h
  | some c =>
    simp only [hn] at h
    split_ifs at h with hwoken
    cases h
    exact ⟨c, rfl, hwoken, rfl⟩

theorem covered_step {e : GuardEvent Id} (h : Covered g) (hstep : g.step e = some g') :
    Covered g' := by
  cases e with
  | acquire id operation =>
    rw [step_acquire] at hstep
    cases hstep
    split_ifs with hfree
    · refine h.lend h.groups (List.nodup_singleton id) (fun i hi ↦ ?_) rfl rfl
      rwa [List.mem_singleton.mp hi]
    · exact h
  | acquireMany ids operation =>
    by_cases hfree : ∀ id ∈ sortedIds ids, g.active id = none
    · rw [step_acquireMany_of_free hfree] at hstep
      cases hstep
      exact h.lend h.groups (sortedIds_nodup ids) hfree rfl rfl
    obtain ⟨g₁, hfreed, hbusy⟩ := step_acquireMany_of_busy operation hfree
    cases hbusy.symm.trans hstep
    exact h.collision hfreed
  | acquireWhenAvailable id operation =>
    cases hstep
    exact h.call (List.nodup_singleton id)
  | acquireManyWhenAvailable ids operation =>
    cases hstep
    exact h.call (sortedIds_nodup ids)
  | release n =>
    cases hstep
    exact h.release_step n
  | resume n =>
    obtain ⟨c, hn, -, rfl⟩ := step_resume_cases hstep
    exact h.attempt (h.groups c (List.mem_of_getElem? hn))

theorem attended_step {e : GuardEvent Id} (h : Attended g) (hcovered : Covered g)
    (hok : handsOnStep g e) (hstep : g.step e = some g') : Attended g' := by
  cases e with
  | acquire id operation =>
    rw [step_acquire] at hstep
    cases hstep
    split_ifs
    · exact h.hold [id] operation
    · exact h
  | acquireMany ids operation =>
    by_cases hfree : ∀ id ∈ sortedIds ids, g.active id = none
    · rw [step_acquireMany_of_free hfree] at hstep
      cases hstep
      exact h.hold _ operation
    obtain ⟨g₁, hfreed, hbusy⟩ := step_acquireMany_of_busy operation hfree
    cases hbusy.symm.trans hstep
    exact h.collision hfreed
  | acquireWhenAvailable id operation =>
    cases hstep
    exact h.call (List.nodup_singleton id)
  | acquireManyWhenAvailable ids operation =>
    cases hstep
    exact h.call (sortedIds_nodup ids)
  | release n =>
    cases hstep
    exact h.release hcovered hok
  | resume n =>
    obtain ⟨c, hn, hwoken, rfl⟩ := step_resume_cases hstep
    refine h.attempt hn (hcovered.groups c (List.mem_of_getElem? hn)) hwoken
      fun hclaim id hid hfree ↦ ?_
    exact hok c hn hclaim id hid (Option.isNone_iff_eq_none.mpr hfree)

end Runs

theorem covered_start : Covered ({} : Guard Id) :=
  ⟨nofun, nofun, nofun, nofun, nofun⟩

theorem attended_start : Attended ({} : Guard Id) :=
  ⟨⟨nofun, nofun⟩, fun _ _ ↦ .inl nofun⟩

section Results

variable [LinearOrder Id] {g : Guard Id}

theorem exclusive_of_reach (h : Reach Guard.step anyStep {} g) : Exclusive g :=
  (h.invariant covered_start fun _ _ _ hI _ hstep ↦ covered_step hI hstep).exclusive

/-- **No lost wake-up.**  No two leases ever overlap; and in every run that drops no wake-up,
whoever is suspended while no microtask is pending waits for a workspace that is held, and
everybody has its lease once all the leases are released. -/
theorem noLostWakeUp_of_handsOn : (Reach Guard.step anyStep {} g → Exclusive g) ∧
    (Reach Guard.step handsOnStep {} g → Exclusive g ∧ NoLostWakeUp g ∧ EverybodyServed g) := by
  refine ⟨exclusive_of_reach, fun h ↦ ?_⟩
  obtain ⟨hattended, hcovered⟩ := h.invariant (I := fun g ↦ Attended g ∧ Covered g)
    ⟨attended_start, covered_start⟩ fun _ _ _ hI hok hstep ↦
      ⟨attended_step hI.1 hI.2 hok hstep, covered_step hI.2 hstep⟩
  have hlost := hattended.noLostWakeUp
  exact ⟨hcovered.exclusive, hlost, hcovered.everybodyServed hlost⟩

def servedRun : List (GuardEvent Nat) :=
  [.acquire 0 "upgrade", .acquireWhenAvailable 0 "review", .release 0, .resume 0, .release 1]

/-- The call of `servedRun` has had its lease. -/
theorem noLostWakeUp_servedRun : EverybodyServed (after Guard.step ({} : Guard Nat) servedRun) := by
  refine (noLostWakeUp_of_handsOn.2 (Reach.of_after servedRun (by decide) ?_)).2.2
  intro n e he
  match n, he with
  | 0, he => cases he; trivial
  | 1, he => cases he; trivial
  | 2, he =>
    cases he
    intro l hl _ id hid
    cases hl
    obtain rfl := List.mem_singleton.mp hid
    exact .inl ⟨⟨0, 1⟩, rfl, rfl⟩
  | 3, he =>
    cases he
    intro c hc hclaim
    cases hc
    exact (hclaim rfl).elim
  | 4, he =>
    cases he
    intro l hl _ id hid
    cases hl
    obtain rfl := List.mem_singleton.mp hid
    exact .inr (.inl nofun)

/-- A group waits for two workspaces, and a call behind it for the second.  The first one is
released: the group is woken, collides on the second and queues there again.  The release of
the second resolves the ticket the group has left there. -/
def lostRun : List (GuardEvent Nat) :=
  [.acquire 0 "upgrade", .acquire 1 "offboard", .acquireManyWhenAvailable [0, 1] "preview",
    .acquireWhenAvailable 1 "review", .release 0, .resume 0, .release 1]

/-- **A wake-up is lost**: at the end of `lostRun` nothing is held, and two calls are suspended
for good. -/
theorem lostRun_loses : ¬ ∀ g : Guard Nat, Reach Guard.step anyStep {} g →
      Exclusive g ∧ NoLostWakeUp g ∧ EverybodyServed g := by
  intro h
  have hend := h (after Guard.step {} lostRun) (.of_after lostRun (by decide) fun _ _ _ ↦ trivial)
  have hserved := hend.2.2 (by decide) (by unfold Quiescent; decide)
  revert hserved
  decide

end Results

end OpenAlice.Workspaces
