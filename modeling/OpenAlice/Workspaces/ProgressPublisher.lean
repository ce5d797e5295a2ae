import Mathlib.Data.List.Chain
import OpenAlice.Run.Tasks

/-!
# The publisher of live progress

`createProgressPublisher` of `src/workspaces/headless-progress.ts`.  The first value that is
offered is queued at once; later ones wait for a timer, and whichever is the latest is queued when
it expires, or when the publisher is flushed.  A value is not queued if it has the fingerprint of
the one that was queued last.

The chain is a list of jobs: `then` lets a job begin when the one before it has settled.  What
waits for the same promise goes on in the order in which it came, so a flush goes on before the
jobs that were queued after it.  `offered` is read by no step, nor is what a flush knows of it.
-/

namespace OpenAlice.Workspaces

open OpenAlice.Run

variable {P F : Type}

inductive JobState where
  | waiting
  | publishing
  | settled
deriving DecidableEq

structure PublishJob (P : Type) where
  progress : P
  state : JobState := .waiting

/-- A flush, with the number of jobs that it waits for and what was offered before it. -/
structure PublisherFlush (P : Type) where
  jobs : Nat
  offered : List P
  resolved : Bool := false

structure Publisher (P F : Type) where
  latest : Option P := none
  started : Bool := false
  queuedFingerprint : Option F := none
  timer : Bool := false
  chain : List (PublishJob P) := []
  flush : Option (PublisherFlush P) := none
  offered : List P := []

inductive PublisherEvent (P : Type) where
  | offer (progress : P)
  | expire
  /-- A job calls `publish`. -/
  | begin (job : Nat)
  /-- What `publish` has returned settles. -/
  | settle (job : Nat) (ok : Bool)
  | flush
  | resolve

namespace Publisher

section Machine

variable [DecidableEq F] (fingerprint : P → F)

def enqueue (s : Publisher P F) (progress : P) : Publisher P F :=
  if some (fingerprint progress) = s.queuedFingerprint then s
  else
    { s with
      queuedFingerprint := some (fingerprint progress)
      chain := s.chain ++ [{ progress }] }

def enqueueLatest (s : Publisher P F) : Publisher P F :=
  match s.latest with
  | some progress => s.enqueue fingerprint progress
  | none => s

def settledTo (s : Publisher P F) : Nat → Bool
  | 0 => true
  | job + 1 => (s.chain[job]?).any (·.state = .settled)

def goTo (s : Publisher P F) (i : Nat) (job : PublishJob P) (state : JobState) : Publisher P F :=
  { s with chain := s.chain.set i { job with state } }

def step (s : Publisher P F) : PublisherEvent P → Option (Publisher P F)
  | .offer progress =>
    let s := { s with latest := some progress, offered := s.offered ++ [progress] }
    if s.started then some { s with timer := true }
    else some ({ s with started := true }.enqueue fingerprint progress)
  | .expire => if s.timer then some ({ s with timer := false }.enqueueLatest fingerprint) else none
  | .begin i =>
    match s.chain[i]? with
    | some job =>
      if job.state = .waiting ∧ s.settledTo i = true ∧
          ∀ flush ∈ s.flush, flush.jobs ≤ i → flush.resolved = true then
        some (s.goTo i job .publishing)
      else none
    | none => none
  | .settle i ok =>
    match s.chain[i]? with
    | some job =>
      if job.state = .publishing then
        let s := s.goTo i job .settled
        if ok = false ∧ s.queuedFingerprint = some (fingerprint job.progress) then
          some { s with queuedFingerprint := none }
        else some s
      else none
    | none => none
  | .flush =>
    if s.flush.isSome then none
    else
      let s := { s with timer := false }.enqueueLatest fingerprint
      some { s with flush := some { jobs := s.chain.length, offered := s.offered } }
  | .resolve =>
    match s.flush with
    | some flush =>
      if flush.resolved = false ∧ s.settledTo flush.jobs = true then
        some { s with flush := some { flush with resolved := true } }
      else none
    | none => none

/-- `publish` never fails. -/
def publishes (_ : Publisher P F) (e : PublisherEvent P) : Prop := ∀ i, e ≠ .settle i false

end Machine

/-- The values that `publish` was called with. -/
def published (s : Publisher P F) : List P :=
  (s.chain.filter (·.state ≠ .waiting)).map PublishJob.progress

variable {fingerprint : P → F} {s s' : Publisher P F}

/-! ## The chain -/

def After (job next : PublishJob P) : Prop := next.state ≠ .waiting → job.state = .settled

variable {chain : List (PublishJob P)}

theorem pairwise_set {i : Nat} {job : PublishJob P} {state : JobState}
    (h : chain.Pairwise After) (hi : chain[i]? = some job)
    (hbefore : state ≠ .waiting → ∀ j < i, ∀ k, chain[j]? = some k → k.state = .settled)
    (hafter : job.state = .settled → state = .settled) :
    (chain.set i { job with state }).Pairwise After := by
  rw [List.pairwise_iff_getElem] at h ⊢
  obtain ⟨hlt, hjob⟩ := List.getElem?_eq_some_iff.mp hi
  intro j k hj hk hjk
  rw [List.length_set] at hj hk
  have hold := h j k hj hk hjk
  rw [List.getElem_set, List.getElem_set]
  split_ifs with hji hki hki
  · omega
  · intro hwaiting
    subst hji
    exact hafter (hjob ▸ hold hwaiting)
  · intro hwaiting
    subst hki
    exact hbefore hwaiting j hjk _ (List.getElem?_eq_getElem hj)
  · exact hold

theorem filter_settled (h : chain.Pairwise After) : chain.filter (·.state ≠ .waiting) <+: chain := by
  induction chain with
  | nil => exact List.prefix_rfl
  | cons job chain ih =>
    obtain ⟨hjob, hchain⟩ := List.pairwise_cons.mp h
    by_cases hwaiting : job.state = .waiting
    · have hnone : chain.filter (·.state ≠ .waiting) = [] := by
        rw [List.filter_eq_nil_iff]
        intro next hnext hbegun
        have hsettled := hjob next hnext (by simpa using hbegun)
        simp [hwaiting] at hsettled
      rw [List.filter_cons_of_neg (by simpa using hwaiting), hnone]
      exact List.nil_prefix
    · rw [List.filter_cons_of_pos (by simpa using hwaiting)]
      exact (List.prefix_cons_inj job).mpr (ih hchain)

theorem settled_before (h : chain.Pairwise After) {i : Nat}
    {job : PublishJob P} (hi : chain[i]? = some job) (hjob : job.state ≠ .waiting) :
    ∀ j < i, ∀ k, chain[j]? = some k → k.state = .settled := by
  intro j hj k hk
  obtain ⟨hlt, rfl⟩ := List.getElem?_eq_some_iff.mp hi
  obtain ⟨hlt', rfl⟩ := List.getElem?_eq_some_iff.mp hk
  exact List.pairwise_iff_getElem.mp h j i hlt' hlt hj hjob

theorem settledTo_before (h : s.chain.Pairwise After) {i : Nat} (hi : s.settledTo i = true) :
    ∀ j < i, ∀ k, s.chain[j]? = some k → k.state = .settled := by
  intro j hj k hk
  cases i with
  | zero => omega
  | succ i =>
    rw [settledTo, Option.any_eq_true] at hi
    obtain ⟨last, hlast, hsettled⟩ := hi
    by_cases heq : j = i
    · subst heq
      rw [hk] at hlast
      cases hlast
      exact of_decide_eq_true hsettled
    · have hbegun : last.state ≠ .waiting := by simp_all
      exact settled_before h hlast hbegun j (by omega) k hk

/-! ## The invariant -/

def values (s : Publisher P F) : List P := s.chain.map PublishJob.progress

theorem values_goTo {i : Nat} {job : PublishJob P} (hi : s.chain[i]? = some job)
    (state : JobState) : (s.goTo i job state).values = s.values := by
  obtain ⟨hlt, rfl⟩ := List.getElem?_eq_some_iff.mp hi
  refine List.ext_getElem (by simp [values, goTo]) fun j _ _ ↦ ?_
  simp only [values, goTo, List.getElem_map, List.getElem_set]
  split_ifs with hji
  · subst hji
    rfl
  · rfl

variable (fingerprint) in
structure Sound (s : Publisher P F) : Prop where
  after : s.chain.Pairwise After
  queued : s.queuedFingerprint = s.values.getLast?.map fingerprint
  differ : (s.values.map fingerprint).IsChain (· ≠ ·)
  latest : s.latest = s.offered.getLast?
  /-- What was queued was offered first, and the latest value is still to be queued unless its
  fingerprint is that of the last one. -/
  taken : ∃ used unused, s.offered = used ++ unused ∧ s.values.Sublist used ∧
    (unused = [] → s.queuedFingerprint = s.latest.map fingerprint)
  flush : ∀ flush ∈ s.flush, flush.jobs ≤ s.values.length ∧
    (s.values.take flush.jobs).getLast?.map fingerprint = flush.offered.getLast?.map fingerprint ∧
    (flush.resolved = false → ∀ i, flush.jobs ≤ i → ∀ job, s.chain[i]? = some job →
      job.state = .waiting)

namespace Sound

theorem initial : Sound fingerprint {} where
  after := .nil
  queued := rfl
  differ := .nil
  latest := rfl
  taken := ⟨[], [], rfl, List.Sublist.refl _, fun _ ↦ rfl⟩
  flush _ h := by cases h

variable (h : Sound fingerprint s)
include h

theorem offer (progress : P) : Sound fingerprint
    { s with latest := some progress, offered := s.offered ++ [progress] } where
  after := h.after
  queued := h.queued
  differ := h.differ
  latest := by simp
  taken := by
    obtain ⟨used, unused, hoffered, hused, -⟩ := h.taken
    exact ⟨used, unused ++ [progress], by rw [hoffered, List.append_assoc], hused, by simp⟩
  flush := h.flush

theorem enqueueLatest [DecidableEq F] : Sound fingerprint (s.enqueueLatest fingerprint) ∧
    (s.enqueueLatest fingerprint).queuedFingerprint =
      (s.enqueueLatest fingerprint).latest.map fingerprint := by
  obtain ⟨used, unused, hoffered, hused, hlast⟩ := h.taken
  have hvalues : s.values.Sublist s.offered := by
    rw [hoffered]
    exact hused.trans (List.sublist_append_left _ _)
  cases hlatest : s.latest with
  | none =>
    have hsame : s.enqueueLatest fingerprint = s := by rw [Publisher.enqueueLatest, hlatest]
    have hnone : s.offered = [] := List.getLast?_eq_none_iff.mp (h.latest.symm.trans hlatest)
    rw [hoffered, List.append_eq_nil_iff] at hnone
    rw [hsame]
    exact ⟨h, hlast hnone.2⟩
  | some progress =>
    have hqueued : s.enqueueLatest fingerprint = s.enqueue fingerprint progress := by
      rw [Publisher.enqueueLatest, hlatest]
    rw [hqueued, Publisher.enqueue]
    split_ifs with hsame
    · have htaken : s.queuedFingerprint = s.latest.map fingerprint := by
        rw [hlatest]
        exact hsame.symm
      exact ⟨{ h with taken := ⟨s.offered, [], by simp, hvalues, fun _ ↦ htaken⟩ }, htaken⟩
    have hvalues' : values { s with
        queuedFingerprint := some (fingerprint progress)
        chain := s.chain ++ [{ progress }] } = s.values ++ [progress] := by simp [values]
    have htaken : some (fingerprint progress) = s.latest.map fingerprint := by
      rw [hlatest]
      rfl
    refine ⟨⟨?_, ?_, ?_, h.latest, ⟨s.offered, [], by simp, ?_, fun _ ↦ htaken⟩, ?_⟩, htaken⟩
    · refine List.pairwise_append.mpr ⟨h.after, List.pairwise_singleton _ _, ?_⟩
      intro job _ next hnext hbegun
      rw [List.mem_singleton.mp hnext] at hbegun
      exact absurd rfl hbegun
    · simp [values]
    · rw [hvalues', List.map_append, List.isChain_append]
      refine ⟨h.differ, List.isChain_singleton _, ?_⟩
      intro x hx y hy heq
      rw [List.getLast?_map, ← h.queued] at hx
      rw [List.map_singleton, List.head?_cons, Option.mem_some_iff] at hy
      exact hsame (hy.trans heq.symm ▸ hx.symm)
    · have hmem : progress ∈ unused := by
        have hne : unused ≠ [] := by
          intro hnil
          rw [hlast hnil, hlatest] at hsame
          exact hsame rfl
        rw [h.latest, hoffered, List.getLast?_append_of_ne_nil _ hne] at hlatest
        exact List.mem_of_getLast? hlatest
      rw [hvalues', hoffered]
      exact hused.append (List.singleton_sublist.mpr hmem)
    · intro flush hflush
      obtain ⟨hle, hlastly, hwaiting⟩ := h.flush flush hflush
      refine ⟨?_, ?_, ?_⟩
      · rw [hvalues', List.length_append]
        omega
      · rw [hvalues', List.take_append_of_le_length hle]
        exact hlastly
      · intro hopen i hi job hjob
        rcases World.task_append hjob with hold | ⟨-, rfl⟩
        · exact hwaiting hopen i hi job hold
        · rfl

theorem beginFlush (hlast : s.queuedFingerprint = s.latest.map fingerprint) : Sound fingerprint
    { s with flush := some { jobs := s.chain.length, offered := s.offered } } := by
  refine { h with flush := fun flush hmem ↦ ?_ }
  cases hmem
  have hlength : s.values.length = s.chain.length := List.length_map _
  refine ⟨hlength.ge, ?_, fun _ i hi job hjob ↦ ?_⟩
  · have hall : s.values.take s.chain.length = s.values := List.take_of_length_le hlength.le
    have hvalues : s.values.getLast?.map fingerprint = s.offered.getLast?.map fingerprint := by
      rw [← h.latest, ← hlast, h.queued]
    exact (congrArg (fun l ↦ l.getLast?.map fingerprint) hall).trans hvalues
  · rw [List.getElem?_eq_none hi] at hjob
    cases hjob

theorem goTo {i : Nat} {job : PublishJob P} {state : JobState} (hi : s.chain[i]? = some job)
    (hbefore : state ≠ .waiting → ∀ j < i, ∀ k, s.chain[j]? = some k → k.state = .settled)
    (hafter : job.state = .settled → state = .settled)
    (hopen : ∀ flush ∈ s.flush, flush.resolved = false → i < flush.jobs) :
    Sound fingerprint (s.goTo i job state) := by
  have hvalues := values_goTo hi state
  refine ⟨pairwise_set h.after hi hbefore hafter, ?_, ?_, h.latest, ?_, ?_⟩
  · rw [hvalues]
    exact h.queued
  · rw [hvalues]
    exact h.differ
  · rw [hvalues]
    exact h.taken
  · intro flush hflush
    rw [hvalues]
    obtain ⟨hle, hlastly, hwaiting⟩ := h.flush flush hflush
    refine ⟨hle, hlastly, fun hunresolved j hj k hk ↦ ?_⟩
    rcases World.task_set hk with ⟨rfl, -⟩ | ⟨-, hk⟩
    · exact absurd (hopen flush hflush hunresolved) (by omega)
    · exact hwaiting hunresolved j hj k hk

theorem step [DecidableEq F] {e : PublisherEvent P} (hok : publishes s e)
    (hst : s.step fingerprint e = some s') : Sound fingerprint s' := by
  cases e with
  | offer progress =>
    simp only [Publisher.step] at hst
    have hoffered := h.offer progress
    split_ifs at hst
    · cases hst
      exact { hoffered with }
    · cases hst
      have hstarted : Sound fingerprint { s with
          latest := some progress, offered := s.offered ++ [progress], started := true } :=
        { hoffered with }
      exact hstarted.enqueueLatest.1
  | expire =>
    simp only [Publisher.step, Option.ite_none_right_eq_some] at hst
    obtain ⟨-, hst⟩ := hst
    cases hst
    have hstopped : Sound fingerprint { s with timer := false } := { h with }
    exact hstopped.enqueueLatest.1
  | begin i =>
    simp only [Publisher.step] at hst
    split at hst
    · rename_i job hi
      split_ifs at hst with hready
      cases hst
      obtain ⟨hwaiting, hsettled, hflush⟩ := hready
      refine h.goTo hi (fun _ ↦ settledTo_before h.after hsettled) (by simp [hwaiting]) ?_
      intro flush hmem hopen
      by_contra hle
      rw [hflush flush hmem (by omega)] at hopen
      cases hopen
    · cases hst
  | settle i ok =>
    cases ok with
    | false => exact absurd rfl (hok i)
    | true =>
      simp only [Publisher.step] at hst
      split at hst
      · rename_i job hi
        split_ifs at hst with hpublishing
        · simp_all
        · cases hst
          have hbefore := settled_before h.after hi (by simp [hpublishing])
          refine h.goTo hi (fun _ ↦ hbefore) (fun _ ↦ rfl) ?_
          intro flush hmem hopen
          by_contra hle
          have hwaiting := (h.flush flush hmem).2.2 hopen i (by omega) job hi
          rw [hwaiting] at hpublishing
          cases hpublishing
      · cases hst
  | flush =>
    simp only [Publisher.step] at hst
    split_ifs at hst
    cases hst
    have hstopped : Sound fingerprint { s with timer := false } := { h with }
    obtain ⟨hqueued, hlast⟩ := hstopped.enqueueLatest
    exact hqueued.beginFlush hlast
  | resolve =>
    simp only [Publisher.step] at hst
    split at hst
    · rename_i flush hflush
      split_ifs at hst
      cases hst
      refine { h with flush := fun flush' hmem ↦ ?_ }
      cases hmem
      obtain ⟨hle, hlastly, -⟩ := h.flush flush hflush
      exact ⟨hle, hlastly, by simp⟩
    · cases hst

end Sound

/-! ## The law -/

/-- Publish calls do not overlap, and what is published is offered in this order, and differs from
what was published before it. -/
structure Ordered (fingerprint : P → F) (s : Publisher P F) : Prop where
  alone : ∀ (i j : Nat) (a b : PublishJob P), s.chain[i]? = some a → s.chain[j]? = some b →
    a.state = .publishing → b.state = .publishing → i = j
  sublist : s.published.Sublist s.offered
  differ : (s.published.map fingerprint).IsChain (· ≠ ·)

theorem Sound.ordered (h : Sound fingerprint s) : Ordered fingerprint s := by
  have hfirst : s.published <+: s.values := (filter_settled h.after).map _
  refine ⟨?_, ?_, ?_⟩
  · intro i j a b hi hj ha hb
    by_contra hne
    rcases Nat.lt_or_gt_of_ne hne with hlt | hlt
    · have hsettled := settled_before h.after hj (by simp [hb]) i hlt a hi
      simp [ha] at hsettled
    · have hsettled := settled_before h.after hi (by simp [ha]) j hlt b hj
      simp [hb] at hsettled
  · obtain ⟨used, unused, hoffered, hused, -⟩ := h.taken
    rw [hoffered]
    exact hfirst.sublist.trans (hused.trans (List.sublist_append_left _ _))
  · exact h.differ.prefix (hfirst.map _)

theorem Sound.resolved [DecidableEq F] (h : Sound fingerprint s)
    (hst : s.step fingerprint .resolve = some s') : ∀ flush ∈ s'.flush,
      s'.published.getLast?.map fingerprint = flush.offered.getLast?.map fingerprint := by
  simp only [Publisher.step] at hst
  split at hst
  · rename_i flush hflush
    split_ifs at hst with hready
    cases hst
    intro flush' hmem
    cases hmem
    obtain ⟨hle, hlastly, hwaiting⟩ := h.flush flush hflush
    rw [← hlastly]
    have hbegun := settledTo_before h.after hready.2
    have hfirst : (s.chain.take flush.jobs).filter (·.state ≠ .waiting) =
        s.chain.take flush.jobs := by
      rw [List.filter_eq_self]
      intro job hjob
      obtain ⟨i, hi⟩ := List.mem_iff_getElem?.mp hjob
      rw [List.getElem?_take] at hi
      split_ifs at hi with hlt
      simp [hbegun i hlt job hi]
    have hrest : (s.chain.drop flush.jobs).filter (·.state ≠ .waiting) = [] := by
      rw [List.filter_eq_nil_iff]
      intro job hjob
      obtain ⟨i, hi⟩ := List.mem_iff_getElem?.mp hjob
      rw [List.getElem?_drop] at hi
      simp [hwaiting hready.1 _ (Nat.le_add_right _ _) job hi]
    have hpublished : s.published = s.values.take flush.jobs := by
      rw [published, ← List.take_append_drop flush.jobs s.chain, List.filter_append, hfirst, hrest,
        List.append_nil, List.map_take]
      rfl
    exact congrArg (fun l ↦ l.getLast?.map fingerprint) hpublished
  · cases hst

example : (exec (step id) ({} : Publisher Nat Nat) [.offer 1, .offer 2, .begin 0, .flush,
    .settle 0 true, .begin 1, .settle 1 true, .resolve]).map (·.published) = some [1, 2] := by
  decide

end Publisher

end OpenAlice.Workspaces
