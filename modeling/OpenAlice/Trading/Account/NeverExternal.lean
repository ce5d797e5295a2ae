import OpenAlice.Trading.Account.Observe

/-!
# An order placed through Alice is not recorded as external

A pass compares the broker's open orders with the ids of the log.  An order that
a push has placed gets into the log with the push's commit, behind all of its
dispatches and a read of the account; until then the log does not know it, and a
pass that finds it in the listing takes it for somebody else's.  `calmStep` is the
condition that this does not happen.

That no order is observed twice rests on the poller's guard alone: one pass runs
at a time.
-/

namespace OpenAlice.Trading.Observe

open OpenAlice.Run OpenAlice.Trading.Git TradingGit

def places : Operation → Bool
  | .placeOrder .. | .closePosition .. => true
  | _ => false

def observedIds (c : GitCommit) : List String :=
  c.results.flatMap fun r ↦ if r.action = .observeExternalOrder then resultIds r else []

/-- No order returned for a placed order or a closed position, bracket legs
included, is in an observation, and no order is in two observations. -/
structure NeverExternal (S : Shared) : Prop where
  apart : ∀ op r, (op, r) ∈ S.replies → places op = true → ∀ id ∈ resultIds r,
    ∀ c ∈ S.commits, id ∉ observedIds c
  once : S.commits.Pairwise fun c c' ↦ ∀ id ∈ observedIds c, id ∉ observedIds c'

/-! ## The conditions on the steps -/

/-- A push before its commit: it dispatches, or waits for the account's state. -/
def pushing : Task → Bool
  | .executing .. | .snapshotting _ => true
  | _ => false

def newReplies : ObserveTask → ObserveAnswer → List (Operation × OperationResult)
  | .ledger t, .ledger a => Passes.repliesOf t a
  | _, _ => []

/-- The broker gives every order a new id, names in a reply orders it has accepted
for it, and lists only orders it has accepted. -/
def honestStep (W : ObserveWorld) : ObserveEvent → Prop
  | .call (.accepts o) => (∀ o' ∈ W.shared.orders, o'.id ≠ o.id) ∧
      ∀ i, o.origin = some i →
        ∃ t op, W.tasks[i]? = some (.ledger t) ∧ dispatched t = some op ∧ places op = true
  | .call _ => True
  | .resume i a => ∀ k, W.tasks[i]? = some k →
      (∀ op r, (op, r) ∈ newReplies k a → places op = true → ∀ id ∈ resultIds r,
        ∃ o ∈ W.shared.orders, o.id = id ∧ o.origin = some i) ∧
      ∀ listing, a = .listed listing → ∀ o ∈ listing, ∀ id, truthy o.orderId = some id →
        ∃ b ∈ W.shared.orders, b.id = id

/-- No order of a listing was accepted for a push that has not appended its commit
when the listing is compared. -/
def calmStep (W : ObserveWorld) : ObserveEvent → Prop
  | .call _ => True
  | .resume i a => ∀ listing, W.tasks[i]? = some .listing → a = .listed listing →
      ∀ o ∈ listing, ∀ b ∈ W.shared.orders, truthy o.orderId = some b.id →
        ∀ j t, b.origin = some j → W.tasks[j]? = some (.ledger t) → pushing t = false

/-- No push that placed an order fails in `getGitState`. -/
def keptStep (W : ObserveWorld) : ObserveEvent → Prop
  | .call _ => True
  | .resume i a => ∀ p text, W.tasks[i]? = some (.ledger (.snapshotting p)) →
      a = .ledger (.threw text) → ∀ r ∈ p.results, resultIds r = []

/-- The steps under which no order of Alice's is taken for external. -/
def apartStep (W : ObserveWorld) (e : ObserveEvent) : Prop :=
  honestStep W e ∧ calmStep W e ∧ keptStep W e

/-! ## One pass at a time -/

variable {cfg : ObserveConfig} {W W' : ObserveWorld} {S S' : Shared}

/-- A tick between the poller's two writes of its guard. -/
def ObserveTask.ticking : ObserveTask → Bool
  | .waiting _ | .listing | .stating _ | .recording _ | .rest => true
  | .ledger _ | .settled => false

theorem ticking_turn (observePass healthy : Bool) :
    (turn cfg observePass healthy).ticking = true := by
  unfold turn
  split <;> rfl

theorem ticking_compare (listing : List OpenOrder) : (compare cfg S listing).ticking = true := by
  simp only [compare]
  split <;> rfl

variable (cfg) in
theorem tickLock : Lock (observeProg cfg) Shared.running ObserveTask.ticking where
  start := by
    intro S i c
    cases c with
    | ledger c => exact .inr ⟨rfl, rfl⟩
    | accepts o => exact .inr ⟨rfl, rfl⟩
    | tick =>
      simp only [observeProg, start, startTick]
      split
      · exact .inr ⟨rfl, rfl⟩
      · rename_i hf
        exact .inl ⟨rfl, by simpa using hf, rfl⟩
  idle := by
    intro S i k a S' k' hk h
    cases k with
    | ledger t =>
      cases a with
      | ledger a =>
        simp only [observeProg, resume] at h
        split at h
        · cases h
        obtain ⟨q, _, he⟩ := Option.map_eq_some_iff.mp h
        cases he
        exact .inr ⟨rfl, rfl⟩
      | _ => cases h
    | settled => cases a <;> cases h
    | _ => cases hk
  owner := by
    intro S i k a S' k' hk hf h
    cases k with
    | waiting observePass =>
      cases a with
      | turn healthy =>
        cases h
        exact hf.trans (ticking_turn observePass healthy).symm
      | _ => cases h
    | listing =>
      cases a with
      | listed listing =>
        cases h
        exact hf.trans (ticking_compare listing).symm
      | threw text =>
        cases h
        exact hf
      | _ => cases h
    | stating unknown =>
      cases a with
      | state s now =>
        cases h
        exact hf
      | threw text =>
        cases h
        exact hf
      | _ => cases h
    | recording t =>
      cases t with
      | recording o =>
        cases a with
        | ledger a =>
          obtain ⟨q, _, he⟩ := Option.map_eq_some_iff.mp h
          cases he
          exact hf
        | _ => cases h
      | _ => cases a <;> cases h
    | rest =>
      cases a with
      | finished =>
        cases h
        rfl
      | _ => cases h
    | _ => cases hk

/-! ## The results a write carries -/

def carried : Task → List OperationResult
  | .executing _ _ _ results => results
  | .snapshotting p => p.results
  | _ => []

def Plain (r : OperationResult) : Prop := r.action = .observeExternalOrder → resultIds r = []

def PlainTask (t : Task) : Prop := ∀ r ∈ carried t, Plain r

theorem parseOperationResult_action (op : Operation) (raw : RawReply) :
    (parseOperationResult op raw).action = op.action := by
  unfold parseOperationResult
  split <;> rfl

theorem resultIds_thrownResult (op : Operation) (text : String) :
    resultIds (thrownResult op text) = [] := rfl

theorem resultIds_rejectResults {operations : List Operation} {reason : Option String}
    {r : OperationResult} (h : r ∈ rejectResults operations reason) : resultIds r = [] := by
  obtain ⟨op, _, rfl⟩ := List.mem_map.mp h
  rfl

variable {c : GitCommit}

theorem observedIds_of_plain (h : ∀ r ∈ c.results, Plain r) : observedIds c = [] := by
  refine List.flatMap_eq_nil_iff.mpr fun r hr ↦ ?_
  split
  · rename_i ha
    exact h r hr ha
  · rfl

variable {id : String}

theorem mem_observedIds :
    id ∈ observedIds c ↔ ∃ r ∈ c.results, r.action = .observeExternalOrder ∧ id ∈ resultIds r := by
  constructor
  · intro h
    obtain ⟨r, hr, hid⟩ := List.mem_flatMap.mp h
    split at hid
    · rename_i ha
      exact ⟨r, hr, ha, hid⟩
    · cases hid
  · rintro ⟨r, hr, ha, hid⟩
    exact List.mem_flatMap.mpr ⟨r, hr, by rwa [if_pos ha]⟩

variable {commits : List GitCommit}

theorem mem_getKnownOrderIds :
    id ∈ getKnownOrderIds commits ↔ ∃ c ∈ commits, ∃ r ∈ c.results, id ∈ resultIds r := by
  simp [getKnownOrderIds, List.mem_flatMap]

theorem known_append : id ∈ getKnownOrderIds (commits ++ [c]) ↔
      id ∈ getKnownOrderIds commits ∨ ∃ r ∈ c.results, id ∈ resultIds r := by
  simp [getKnownOrderIds, List.flatMap_append]

theorem known_of_observed (hc : c ∈ commits)
    (h : id ∈ observedIds c) : id ∈ getKnownOrderIds commits := by
  obtain ⟨r, hr, _, hid⟩ := mem_observedIds.mp h
  exact mem_getKnownOrderIds.mpr ⟨c, hc, r, hr, hid⟩

/-! ## What a step can do -/

/-- The log is the same, or one commit longer that records nothing as external. -/
def Extends (commits commits' : List GitCommit) : Prop :=
  commits' = commits ∨ ∃ c, commits' = commits ++ [c] ∧ observedIds c = []

theorem Extends.known {commits commits' : List GitCommit} (h : Extends commits commits')
    (hid : id ∈ getKnownOrderIds commits) : id ∈ getKnownOrderIds commits' := by
  rcases h with rfl | ⟨c, rfl, _⟩
  · exact hid
  · exact known_append.mpr (.inl hid)

theorem Extends.observed {commits commits' : List GitCommit} (h : Extends commits commits')
    (hc : c ∈ commits') (hid : id ∈ observedIds c) : c ∈ commits := by
  rcases h with rfl | ⟨c', rfl, hnone⟩
  · exact hc
  rcases List.mem_append.mp hc with hc | hc
  · exact hc
  · cases List.mem_singleton.mp hc
    rw [hnone] at hid
    cases hid

/-- A step that is no observation: what a task of the ledger carried it carries on,
unless the log has it now. -/
structure Goes (W W' : ObserveWorld) : Prop where
  log : Extends W.shared.commits W'.shared.commits
  stating : ∀ (i : Nat) unknown, W'.tasks[i]? = some (.stating unknown) →
    W.tasks[i]? = some (.stating unknown)
  ledger : ∀ (i : Nat) t, W.tasks[i]? = some (.ledger t) → ∃ t', W'.tasks[i]? = some (.ledger t')
  carried : ∀ (i : Nat) t, W.tasks[i]? = some (.ledger t) → ∀ r ∈ carried t, ∀ id ∈ resultIds r,
    id ∈ getKnownOrderIds W'.shared.commits ∨
      ∃ t', W'.tasks[i]? = some (.ledger t') ∧ r ∈ Observe.carried t'
  pushing : ∀ (i : Nat) t', W'.tasks[i]? = some (.ledger t') → pushing t' = true →
    i = W.tasks.length ∨ ∃ t, W.tasks[i]? = some (.ledger t) ∧ Observe.pushing t = true
  plain : (∀ (i : Nat) t, W.tasks[i]? = some (.ledger t) → PlainTask t) →
    ∀ (i : Nat) t, W'.tasks[i]? = some (.ledger t) → PlainTask t

variable {i : Nat}

theorem goes_set {k k' : ObserveTask} (hi : W.tasks[i]? = some k)
    (hlog : S'.commits = W.shared.commits) (hk : ∀ t, k ≠ .ledger t) (hk' : ∀ t, k' ≠ .ledger t)
    (hquiet : ∀ unknown, k' ≠ .stating unknown) : Goes W ⟨S', W.tasks.set i k'⟩ := by
  have hledger : ∀ (j : Nat) t, (W.tasks.set i k')[j]? = some (.ledger t) ↔
      W.tasks[j]? = some (.ledger t) := fun j t ↦ World.task_set_iff hi (hk t) (hk' t)
  constructor
  · exact .inl hlog
  · intro j unknown hj
    rcases World.task_set hj with ⟨_, he⟩ | ⟨_, hj⟩
    · exact absurd he.symm (hquiet unknown)
    · exact hj
  · exact fun j t hj ↦ ⟨t, (hledger j t).mpr hj⟩
  · exact fun j t hj r hr _ _ ↦ .inr ⟨t, (hledger j t).mpr hj, hr⟩
  · exact fun j t hj hp ↦ .inr ⟨t, (hledger j t).mp hj, hp⟩
  · exact fun h j t hj ↦ h j t ((hledger j t).mp hj)

theorem goes_append (k' : ObserveTask) (hlog : Extends W.shared.commits S'.commits)
    (hquiet : ∀ unknown, k' ≠ .stating unknown)
    (hk' : ∀ t, k' = .ledger t → ∀ r ∈ carried t, resultIds r = []) :
    Goes W ⟨S', W.tasks ++ [k']⟩ := by
  have hforth : ∀ (j : Nat) k, W.tasks[j]? = some k → (W.tasks ++ [k'])[j]? = some k := by
    intro j k hj
    exact (List.getElem?_append_left (List.getElem?_eq_some_iff.mp hj).1).trans hj
  constructor
  · exact hlog
  · intro j unknown hj
    rcases World.task_append hj with hj | ⟨_, he⟩
    · exact hj
    · exact absurd he.symm (hquiet unknown)
  · exact fun j t hj ↦ ⟨t, hforth j _ hj⟩
  · exact fun j t hj r hr _ _ ↦ .inr ⟨t, hforth j _ hj, hr⟩
  · intro j t hj hp
    rcases World.task_append hj with hj | ⟨hj, _⟩
    · exact .inr ⟨t, hj, hp⟩
    · exact .inl hj
  · intro h j t hj
    rcases World.task_append hj with hj | ⟨_, he⟩
    · exact h j t hj
    · exact fun r hr _ ↦ hk' t he.symm r hr

theorem goes_call {c : Call} (hc : recordsObserved c = false) {L : Ledger} {t : Task}
    (hs : Started cfg.toPlatform W.shared.ledger W.tasks.length c L t) :
    Goes W ⟨{ W.shared with ledger := L }, W.tasks ++ [.ledger t]⟩ := by
  refine goes_append _ ?_ (by simp) ?_
  · cases hs with
    | recorded hr =>
      right
      cases hr with
      | reconcile p now => exact ⟨_, rfl, rfl⟩
      | sync us s hashedAt now _ =>
        refine ⟨_, rfl, observedIds_of_plain ?_⟩
        intro r hr
        obtain ⟨u, _, rfl⟩ := List.mem_map.mp hr
        rintro ⟨⟩
      | observed os s now => cases hc
    | _ => exact .inl rfl
  · rintro t' ⟨⟩ r hr
    cases hs with
    | rejecting _ _ _ _ _ => exact resultIds_rejectResults hr
    | _ => cases hr

theorem resumed_carries {L L' : Ledger} {t t' : Task} {a : Answer} (hr : Resumed L i t a L' t')
    (hkept : ∀ p text, t = .snapshotting p → a = .threw text → ∀ r ∈ p.results, resultIds r = []) :
    ∀ r ∈ carried t, ∀ id ∈ resultIds r, id ∈ getKnownOrderIds L'.git.commits ∨ r ∈ carried t' := by
  intro r hmem id hid
  cases hr with
  | dispatched _ _ _ => exact .inr (List.mem_append_left _ hmem)
  | executed _ _ _ => exact .inr (List.mem_append_left _ hmem)
  | @appended p s now =>
    rw [note_git, append_commits]
    exact .inl (known_append.mpr (.inr ⟨r, hmem, hid⟩))
  | @failed p t text o ht =>
    rcases ht with rfl | rfl
    · rw [hkept p text rfl rfl r hmem] at hid
      cases hid
    · cases hmem
  | cleared => cases hmem
  | settled => cases hmem

theorem plain_answered {op : Operation} {a : Answer} {r : OperationResult} (h : Answered op a r)
    (hop : ∀ raw, a = .reply raw → dispatches op = true) : Plain r := by
  cases h with
  | replied raw =>
    intro ha
    rw [parseOperationResult_action] at ha
    have hd := hop raw rfl
    cases op <;> cases ha
    cases hd
  | threw text => exact fun _ ↦ resultIds_thrownResult op text

theorem goes_resume {t t' : Task} {a : Answer} {L : Ledger}
    {replies : List (Operation × OperationResult)} (hi : W.tasks[i]? = some (.ledger t))
    (hplain : PlainTask t) (hanswer : Unanswerable t a = false)
    (hkept : ∀ p text, t = .snapshotting p → a = .threw text → ∀ r ∈ p.results, resultIds r = [])
    (hr : Resumed W.shared.ledger i t a L t') :
    Goes W ⟨{ W.shared with ledger := L, replies := replies }, W.tasks.set i (.ledger t')⟩ := by
  have hdispatches : ∀ op, dispatched t = some op → ∀ raw, a = .reply raw → dispatches op = true := by
    rintro op hop raw rfl
    simpa [Unanswerable, hop] using hanswer
  have hself : (W.tasks.set i (.ledger t'))[i]? = some (.ledger t') := by
    rw [List.getElem?_set_self (List.getElem?_eq_some_iff.mp hi).1]
  have hcarries := resumed_carries hr hkept
  constructor
  · cases hr with
    | appended => exact .inr ⟨_, rfl, observedIds_of_plain hplain⟩
    | _ => exact .inl rfl
  · intro j unknown hj
    rcases World.task_set hj with ⟨_, he⟩ | ⟨_, hj⟩
    · cases he
    · exact hj
  · intro j u hj
    by_cases hij : i = j
    · subst hij
      exact ⟨t', hself⟩
    · exact ⟨u, by rw [List.getElem?_set_ne hij, hj]⟩
  · intro j u hj r hmem id hid
    by_cases hij : i = j
    · subst hij
      cases hi.symm.trans hj
      exact (hcarries r hmem id hid).imp_right fun h ↦ ⟨t', hself, h⟩
    · exact .inr ⟨u, by rw [List.getElem?_set_ne hij, hj], hmem⟩
  · intro j u hj hp
    rcases World.task_set hj with ⟨rfl, he⟩ | ⟨_, hj⟩
    · cases he
      refine .inr ⟨t, hi, ?_⟩
      cases hr with
      | dispatched _ _ _ => rfl
      | executed _ _ _ => rfl
      | _ => cases hp
    · exact .inr ⟨u, hj, hp⟩
  · intro h j u hj
    rcases World.task_set hj with ⟨rfl, he⟩ | ⟨_, hj⟩
    · cases he
      intro r hmem
      cases hr with
      | dispatched hop hr _ =>
        rcases List.mem_append.mp hmem with hmem | hmem
        · exact hplain r hmem
        · cases List.mem_singleton.mp hmem
          exact plain_answered hr (hdispatches _ hop)
      | executed hop hr _ =>
        rcases List.mem_append.mp hmem with hmem | hmem
        · exact hplain r hmem
        · cases List.mem_singleton.mp hmem
          exact plain_answered hr (hdispatches _ hop)
      | _ => cases hmem
    · exact h j u hj

/-! ## What the account keeps track of -/

def Noted (W : ObserveWorld) (id : String) : Prop :=
  (∃ c ∈ W.shared.commits, id ∈ observedIds c) ∨
    ∃ (i : Nat) (unknown : List ObservedOrder), W.tasks[i]? = some (.stating unknown) ∧
      ∃ u ∈ unknown, u.orderId = id

/-- Where the orders of the broker stand. -/
structure Sorted (W : ObserveWorld) : Prop where
  unique : ∀ o ∈ W.shared.orders, ∀ o' ∈ W.shared.orders, o.id = o'.id → o = o'
  owned : ∀ o ∈ W.shared.orders, ∀ i, o.origin = some i → ∃ t, W.tasks[i]? = some (.ledger t)
  returned : ∀ op r, (op, r) ∈ W.shared.replies → places op = true → ∀ id ∈ resultIds r,
    ∃ o ∈ W.shared.orders, o.id = id ∧ ∃ i, o.origin = some i ∧
      (id ∈ getKnownOrderIds W.shared.commits ∨ ∃ t, W.tasks[i]? = some (.ledger t) ∧ r ∈ carried t)
  foreign : ∀ id, Noted W id → ∃ o ∈ W.shared.orders, o.id = id ∧
    ∀ i t, o.origin = some i → W.tasks[i]? = some (.ledger t) → pushing t = false
  apart : ∀ op r, (op, r) ∈ W.shared.replies → places op = true → ∀ id ∈ resultIds r, ¬ Noted W id
  once : W.shared.commits.Pairwise fun c c' ↦ ∀ id ∈ observedIds c, id ∉ observedIds c'
  /-- A pass under way is going to record orders that no commit records. -/
  fresh : ∀ (i : Nat) unknown, W.tasks[i]? = some (.stating unknown) → ∀ u ∈ unknown,
    ∀ c ∈ W.shared.commits, u.orderId ∉ observedIds c
  plain : ∀ (i : Nat) t, W.tasks[i]? = some (.ledger t) → PlainTask t

theorem sorted_initial : Sorted .initial := by
  constructor <;> simp [ObserveWorld.initial, Shared.commits, Noted]

/-- An answer that a step hears is that of an order of the push that dispatches. -/
def Heard (W W' : ObserveWorld) (heard : List (Operation × OperationResult)) : Prop :=
  ∀ op r, (op, r) ∈ heard → places op = true → ∀ id ∈ resultIds r, ∃ o ∈ W.shared.orders,
    o.id = id ∧ ∃ i t t', o.origin = some i ∧ W.tasks[i]? = some (.ledger t) ∧
      pushing t = true ∧ W'.tasks[i]? = some (.ledger t') ∧ r ∈ carried t'

theorem Goes.noted (hg : Goes W W') (h : Noted W' id) : Noted W id := by
  rcases h with ⟨c, hc, hid⟩ | ⟨i, unknown, hi, h⟩
  · exact .inl ⟨c, hg.log.observed hc hid, hid⟩
  · exact .inr ⟨i, unknown, hg.stating i unknown hi, h⟩

theorem Sorted.goes (h : Sorted W) (hg : Goes W W') {heard : List (Operation × OperationResult)}
    (ho : W'.shared.orders = W.shared.orders) (hr : W'.shared.replies = W.shared.replies ++ heard)
    (hheard : Heard W W' heard) : Sorted W' := by
  have hforeign : ∀ id, Noted W id → ∃ o ∈ W.shared.orders, o.id = id ∧
      ∀ i t, o.origin = some i → W'.tasks[i]? = some (.ledger t) → pushing t = false := by
    intro id hid
    obtain ⟨o, hmem, hoid, hquiet⟩ := h.foreign id hid
    refine ⟨o, hmem, hoid, fun i t hi ht ↦ ?_⟩
    by_contra hp
    obtain ⟨t₀, ht₀⟩ := h.owned o hmem i hi
    rcases hg.pushing i t ht (by simpa using hp) with rfl | ⟨t₁, ht₁, hp₁⟩
    · simp at ht₀
    · rw [hquiet i t₁ hi ht₁] at hp₁
      cases hp₁
  constructor
  · rw [ho]
    exact h.unique
  · rw [ho]
    intro o hmem i hi
    obtain ⟨t, ht⟩ := h.owned o hmem i hi
    exact hg.ledger i t ht
  · rw [hr, ho]
    intro op r hmem hop id hid
    rcases List.mem_append.mp hmem with hmem | hmem
    · obtain ⟨o, homem, hoid, i, hi, hwhere⟩ := h.returned op r hmem hop id hid
      refine ⟨o, homem, hoid, i, hi, ?_⟩
      rcases hwhere with hknown | ⟨t, ht, hcarried⟩
      · exact .inl (hg.log.known hknown)
      · exact hg.carried i t ht r hcarried id hid
    · obtain ⟨o, homem, hoid, i, t, t', hi, _, _, ht', hcarried⟩ := hheard op r hmem hop id hid
      exact ⟨o, homem, hoid, i, hi, .inr ⟨t', ht', hcarried⟩⟩
  · rw [ho]
    exact fun id hid ↦ hforeign id (hg.noted hid)
  · rw [hr]
    intro op r hmem hop id hid hnoted
    rcases List.mem_append.mp hmem with hmem | hmem
    · exact h.apart op r hmem hop id hid (hg.noted hnoted)
    obtain ⟨o, homem, hoid, i, t, t', hi, ht, hp, _⟩ := hheard op r hmem hop id hid
    obtain ⟨o', homem', hoid', hquiet⟩ := h.foreign id (hg.noted hnoted)
    cases h.unique o homem o' homem' (hoid.trans hoid'.symm)
    rw [hquiet i t hi ht] at hp
    cases hp
  · rcases hg.log with hlog | ⟨c, hlog, hnone⟩
    · rw [hlog]
      exact h.once
    rw [hlog, List.pairwise_append]
    refine ⟨h.once, List.pairwise_singleton _ _, ?_⟩
    intro c₁ _ c₂ hc₂ id _
    cases List.mem_singleton.mp hc₂
    rw [hnone]
    exact List.not_mem_nil
  · intro i unknown hi u hu c hc hid
    exact h.fresh i unknown (hg.stating i unknown hi) u hu c (hg.log.observed hc hid) hid
  · exact hg.plain h.plain

theorem Sorted.accepts (h : Sorted W) {o : AcceptedOrder} (hok : honestStep W (.call (.accepts o)))
    (hg : Goes W W') (ho : W'.shared.orders = W.shared.orders ++ [o])
    (hr : W'.shared.replies = W.shared.replies) : Sorted W' := by
  obtain ⟨hfresh, hown⟩ := hok
  -- without the new order this is a step like any other
  have hsame : Sorted ⟨{ W'.shared with orders := W.shared.orders }, W'.tasks⟩ :=
    h.goes ⟨hg.log, hg.stating, hg.ledger, hg.carried, hg.pushing, hg.plain⟩ rfl
      (hr.trans (List.append_nil _).symm) (by rintro op r ⟨⟩)
  constructor
  · rw [ho]
    intro o₁ h₁ o₂ h₂ he
    rcases List.mem_append.mp h₁ with h₁ | h₁ <;> rcases List.mem_append.mp h₂ with h₂ | h₂
    · exact h.unique o₁ h₁ o₂ h₂ he
    · cases List.mem_singleton.mp h₂
      exact absurd he (hfresh o₁ h₁)
    · cases List.mem_singleton.mp h₁
      exact absurd he.symm (hfresh o₂ h₂)
    · rw [List.mem_singleton.mp h₁, List.mem_singleton.mp h₂]
  · rw [ho]
    intro o₁ h₁ i hi
    rcases List.mem_append.mp h₁ with h₁ | h₁
    · exact hsame.owned o₁ h₁ i hi
    · cases List.mem_singleton.mp h₁
      obtain ⟨t, op, ht, _⟩ := hown i hi
      exact hg.ledger i t ht
  · rw [ho]
    intro op r hmem hop id hid
    obtain ⟨o₁, h₁, hrest⟩ := hsame.returned op r hmem hop id hid
    exact ⟨o₁, List.mem_append_left _ h₁, hrest⟩
  · rw [ho]
    intro id hid
    obtain ⟨o₁, h₁, hrest⟩ := hsame.foreign id hid
    exact ⟨o₁, List.mem_append_left _ h₁, hrest⟩
  · exact hsame.apart
  · exact hsame.once
  · exact hsame.fresh
  · exact hsame.plain

/-! ## A pass -/

variable {listing : List OpenOrder}

theorem mem_unknownOrders {u : ObservedOrder} (h : u ∈ unknownOrders cfg S listing) :
    u.orderId ∉ getKnownOrderIds S.commits ∧ ∃ o ∈ listing, truthy o.orderId = some u.orderId := by
  obtain ⟨o, ho, hu⟩ := List.mem_filterMap.mp h
  obtain ⟨id, hid, hu⟩ := Option.bind_eq_some_iff.mp hu
  split at hu
  · cases hu
  rename_i hunknown
  cases hu
  exact ⟨hunknown, o, ho, hid⟩

theorem pushing_of_carried {t : Task} {r : OperationResult} (h : r ∈ carried t) :
    pushing t = true := by
  cases t with
  | executing _ _ _ _ => rfl
  | snapshotting _ => rfl
  | _ => cases h

theorem Sorted.compares (h : Sorted W)
    (hi : W.tasks[i]? = some .listing) (hhonest : honestStep W (.resume i (.listed listing)))
    (hcalm : calmStep W (.resume i (.listed listing))) :
    Sorted ⟨W.shared, W.tasks.set i (.stating (unknownOrders cfg W.shared listing))⟩ := by
  have hledger : ∀ (j : Nat) t, (W.tasks.set i (.stating (unknownOrders cfg W.shared listing)))[j]? =
      some (.ledger t) ↔ W.tasks[j]? = some (.ledger t) :=
    fun j t ↦ World.task_set_iff hi ObserveTask.noConfusion ObserveTask.noConfusion
  -- what is noted now was noted before, or is listed and unknown
  have hnoted : ∀ id, Noted ⟨W.shared, W.tasks.set i (.stating (unknownOrders cfg W.shared listing))⟩ id →
      Noted W id ∨ ∃ u ∈ unknownOrders cfg W.shared listing, u.orderId = id := by
    intro id hid
    rcases hid with hid | ⟨j, unknown, hj, hu⟩
    · exact .inl (.inl hid)
    rcases World.task_set hj with ⟨_, he⟩ | ⟨_, hj⟩
    · cases he
      exact .inr hu
    · exact .inl (.inr ⟨j, unknown, hj, hu⟩)
  have hquiet : ∀ u ∈ unknownOrders cfg W.shared listing, ∃ o ∈ W.shared.orders,
      o.id = u.orderId ∧ ∀ j t, o.origin = some j → W.tasks[j]? = some (.ledger t) →
        pushing t = false := by
    intro u hu
    obtain ⟨_, o, ho, hid⟩ := mem_unknownOrders hu
    obtain ⟨b, hb, hbid⟩ := (hhonest _ hi).2 listing rfl o ho _ hid
    exact ⟨b, hb, hbid, hcalm listing hi rfl o ho b hb (hid.trans (congrArg some hbid.symm))⟩
  constructor
  · exact h.unique
  · intro o ho j hj
    obtain ⟨t, ht⟩ := h.owned o ho j hj
    exact ⟨t, (hledger j t).mpr ht⟩
  · intro op r hmem hop id hid
    obtain ⟨o, ho, hoid, j, hj, hwhere⟩ := h.returned op r hmem hop id hid
    refine ⟨o, ho, hoid, j, hj, hwhere.imp_right ?_⟩
    exact fun ⟨t, ht, hr⟩ ↦ ⟨t, (hledger j t).mpr ht, hr⟩
  · intro id hid
    simp only [hledger]
    rcases hnoted id hid with hid | ⟨u, hu, rfl⟩
    · exact h.foreign id hid
    · exact hquiet u hu
  · intro op r hmem hop id hid hn
    rcases hnoted id hn with hn | ⟨u, hu, rfl⟩
    · exact h.apart op r hmem hop id hid hn
    obtain ⟨o, ho, hoid, j, hj, hwhere⟩ := h.returned op r hmem hop _ hid
    obtain ⟨o', ho', hoid', hcalm'⟩ := hquiet u hu
    cases h.unique o ho o' ho' (hoid.trans hoid'.symm)
    rcases hwhere with hknown | ⟨t, ht, hr⟩
    · exact (mem_unknownOrders hu).1 hknown
    have hp := hcalm' j t hj ht
    rw [pushing_of_carried hr] at hp
    cases hp
  · exact h.once
  · intro j unknown hj u hu c hc hid
    rcases World.task_set hj with ⟨_, he⟩ | ⟨_, hj⟩
    · cases he
      exact (mem_unknownOrders hu).1 (known_of_observed hc hid)
    · exact h.fresh j unknown hj u hu c hc hid
  · exact fun j t hj ↦ h.plain j t ((hledger j t).mp hj)

theorem mem_observed {unknown : List ObservedOrder}
    (hc : c.results = unknown.map ObservedOrder.result) (h : id ∈ observedIds c) :
    ∃ u ∈ unknown, u.orderId = id := by
  obtain ⟨r, hr, _, hid⟩ := mem_observedIds.mp h
  rw [hc] at hr
  obtain ⟨u, hu, rfl⟩ := List.mem_map.mp hr
  simp only [resultIds, ObservedOrder.result, List.map_nil, List.append_nil, Option.mem_toList] at hid
  exact ⟨u, hu, Option.some.inj (truthy_eq_some.mp hid).1⟩

/-- **A pass that records** what it noted, the only one under way. -/
theorem Sorted.records (h : Sorted W) {unknown : List ObservedOrder} {k' : ObserveTask}
    (hx : Exclusive Shared.running ObserveTask.ticking W)
    (hi : W.tasks[i]? = some (.stating unknown))
    (hk' : ∀ t, k' ≠ .ledger t) (hquiet : ∀ os, k' ≠ .stating os)
    (hc : c.results = unknown.map ObservedOrder.result) (ho : S'.orders = W.shared.orders)
    (hr : S'.replies = W.shared.replies) (hlog : S'.commits = W.shared.commits ++ [c]) :
    Sorted ⟨S', W.tasks.set i k'⟩ := by
  have hledger : ∀ (j : Nat) t, (W.tasks.set i k')[j]? = some (.ledger t) ↔
      W.tasks[j]? = some (.ledger t) :=
    fun j t ↦ World.task_set_iff hi ObserveTask.noConfusion (hk' t)
  have hnone : ∀ (j : Nat) os, (W.tasks.set i k')[j]? ≠ some (.stating os) := by
    intro j os hj
    rcases World.task_set hj with ⟨_, he⟩ | ⟨hne, hj⟩
    · exact absurd he.symm (hquiet os)
    · exact hne (hx.unique j i _ _ hj hi rfl rfl)
  have hnoted : ∀ id, Noted ⟨S', W.tasks.set i k'⟩ id → Noted W id := by
    intro id hid
    rcases hid with ⟨c', hc', hid⟩ | ⟨j, os, hj, _⟩
    · rw [hlog] at hc'
      rcases List.mem_append.mp hc' with hc' | hc'
      · exact .inl ⟨c', hc', hid⟩
      · cases List.mem_singleton.mp hc'
        exact .inr ⟨i, unknown, hi, mem_observed hc hid⟩
    · exact absurd hj (hnone j os)
  constructor
  · rw [ho]
    exact h.unique
  · rw [ho]
    intro o hmem j hj
    obtain ⟨t, ht⟩ := h.owned o hmem j hj
    exact ⟨t, (hledger j t).mpr ht⟩
  · rw [ho, hr, hlog]
    intro op r hmem hop id hid
    obtain ⟨o, homem, hoid, j, hj, hwhere⟩ := h.returned op r hmem hop id hid
    refine ⟨o, homem, hoid, j, hj, ?_⟩
    rcases hwhere with hknown | ⟨t, ht, hr⟩
    · exact .inl (known_append.mpr (.inl hknown))
    · exact .inr ⟨t, (hledger j t).mpr ht, hr⟩
  · rw [ho]
    intro id hid
    obtain ⟨o, homem, hoid, hq⟩ := h.foreign id (hnoted id hid)
    exact ⟨o, homem, hoid, fun j t hj ht ↦ hq j t hj ((hledger j t).mp ht)⟩
  · rw [hr]
    exact fun op r hmem hop id hid hn ↦ h.apart op r hmem hop id hid (hnoted id hn)
  · rw [hlog, List.pairwise_append]
    refine ⟨h.once, List.pairwise_singleton _ _, ?_⟩
    intro c₁ hc₁ c₂ hc₂ id hid hid'
    cases List.mem_singleton.mp hc₂
    obtain ⟨u, hu, rfl⟩ := mem_observed hc hid'
    exact h.fresh i unknown hi u hu c₁ hc₁ hid
  · exact fun j os hj ↦ absurd hj (hnone j os)
  · exact fun j t hj ↦ h.plain j t ((hledger j t).mp hj)

/-! ## Every step -/

theorem heard_of_resumed {t t' : Task} {a : Answer} {L : Ledger}
    {replies : List (Operation × OperationResult)} (hi : W.tasks[i]? = some (.ledger t))
    (hhonest : honestStep W (.resume i (.ledger a)))
    (hr : Git.resume W.shared.ledger i t a = some (L, t')) :
    Heard W ⟨{ W.shared with ledger := L, replies := replies }, W.tasks.set i (.ledger t')⟩
      (Passes.repliesOf t a) := by
  intro op r hmem hop id hid
  obtain ⟨o, ho, hoid, horigin⟩ := (hhonest _ hi).1 op r hmem hop id hid
  refine ⟨o, ho, hoid, i, t, t', horigin, hi, ?_⟩
  have hself : (W.tasks.set i (.ledger t'))[i]? = some (.ledger t') := by
    rw [List.getElem?_set_self (List.getElem?_eq_some_iff.mp hi).1]
  unfold Passes.repliesOf at hmem
  split at hmem
  · rename_i operations message hash results raw
    obtain ⟨op₀, hop₀, hr₀⟩ := Option.map_eq_some_iff.mp hr
    rw [hop₀] at hmem
    cases List.mem_singleton.mp hmem
    refine ⟨rfl, hself, ?_⟩
    unfold nextOperation at hr₀
    split at hr₀
    · cases hr₀
      exact List.mem_append_right _ (List.mem_singleton_self _)
    · cases hr₀
      exact List.mem_append_right _ (List.mem_singleton_self _)
  · cases hmem

theorem step_sorted {e : ObserveEvent} (h : Sorted W)
    (hx : Exclusive Shared.running ObserveTask.ticking W) (hok : apartStep W e)
    (hst : (observeProg cfg).step W e = some W') : Sorted W' := by
  obtain ⟨hhonest, hcalm, hkept⟩ := hok
  have hnil : W.shared.replies = W.shared.replies ++ [] := (List.append_nil _).symm
  have hnone : ∀ V, Heard W V [] := by rintro V op r ⟨⟩
  cases e with
  | call c =>
    cases Prog.step_call hst
    cases c with
    | ledger c =>
      exact h.goes (goes_call c.2 (start_spec cfg.toPlatform W.shared.ledger W.tasks.length c.1))
        rfl hnil (hnone _)
    | tick =>
      simp only [observeProg, start, startTick]
      split
      · exact h.goes (goes_append _ (.inl rfl) (by simp) (by simp)) rfl hnil (hnone _)
      · exact h.goes (goes_append _ (.inl rfl) (by simp) (by simp)) rfl hnil (hnone _)
    | accepts o =>
      exact h.accepts hhonest (goes_append .settled (.inl rfl) (by simp) (by simp)) rfl rfl
  | resume i a =>
    obtain ⟨k, S', k', hi, hr, rfl⟩ := Prog.step_resume hst
    simp only [observeProg] at hr
    unfold resume at hr
    split at hr
    · rename_i t a
      split at hr
      · cases hr
      rename_i hanswer
      obtain ⟨⟨L, t'⟩, hq, he⟩ := Option.map_eq_some_iff.mp hr
      cases he
      refine h.goes (goes_resume hi (h.plain i t hi) (by simpa using hanswer) ?_ (resume_spec hq))
        rfl rfl (heard_of_resumed hi hhonest hq)
      rintro p text rfl rfl
      exact hkept p text hi rfl
    · rename_i observePass healthy
      cases hr
      refine h.goes (goes_set hi rfl (by simp) ?_ ?_) rfl hnil (hnone _)
      · intro t ht
        unfold turn at ht
        split at ht <;> cases ht
      intro unknown hu
      unfold turn at hu
      split at hu <;> cases hu
    · rename_i listing
      cases hr
      simp only [compare]
      split
      · exact h.goes (goes_set hi rfl (by simp) (by simp) (by simp)) rfl hnil (hnone _)
      · exact h.compares hi hhonest hcalm
    · rename_i unknown s now
      cases hr
      exact h.records hx hi (by simp) (by simp) (c := ⟨_, _, _, _, _, _, _, _⟩) rfl rfl rfl rfl
    · rename_i o a
      obtain ⟨⟨L, t'⟩, hq, he⟩ := Option.map_eq_some_iff.mp hr
      cases he
      have hL : L = W.shared.ledger := by
        have hs := resume_spec hq
        cases hs with
        | settled => rfl
        | failed ht => rcases ht with ht | ht <;> cases ht
      exact h.goes (goes_set hi (by rw [hL]) (by simp) (by simp) (by simp)) rfl hnil (hnone _)
    · cases hr
      exact h.goes (goes_set hi rfl (by simp) (by simp) (by simp)) rfl hnil (hnone _)
    · cases hr
      exact h.goes (goes_set hi rfl (by simp) (by simp) (by simp)) rfl hnil (hnone _)
    · cases hr
      exact h.goes (goes_set hi rfl (by simp) (by simp) (by simp)) rfl hnil (hnone _)
    · cases hr

/-- **An order placed through Alice is never recorded as external**, in every run
of an honest broker in which no pass compares a listing with an order of a push
that has not appended its commit, and no push that placed an order fails in
`getGitState`. -/
theorem never_external
    (h : Reach (observeProg cfg).step apartStep ObserveWorld.initial W) :
    NeverExternal W.shared := by
  have hsorted : Sorted W :=
    h.invariant_of_reach sorted_initial fun V e V' hr hV hok hst ↦
      step_sorted hV ((tickLock cfg).exclusive rfl hr) hok hst
  exact ⟨fun op r hmem hop id hid c hc hobs ↦
    hsorted.apart op r hmem hop id hid (.inl ⟨c, hc, hobs⟩), hsorted.once⟩

/-! ## Runs to evaluate -/

def sampleAccount : ObserveConfig where
  toPlatform := constPlatform
  listsOpenOrders := true
  stampAliceId _ := "acct|AAPL"
  observeEveryTicks := 1
  keyless := false

def sampleAfter (events : List ObserveEvent) : ObserveWorld :=
  after (observeProg sampleAccount).step .initial events

def buyOperation : Operation := .placeOrder sampleContract { action := some "BUY" } none

def pushed : List ObserveEvent :=
  [.call (.ledger ⟨.add buyOperation, rfl⟩), .call (.ledger ⟨.commit "buy" 1, rfl⟩),
    .call (.ledger ⟨.push "00000000", rfl⟩), .call (.accepts ⟨"1", some 2⟩)]

def replied : ObserveEvent :=
  .resume 2 (.ledger (.reply (.object true none (some "1") (some { status := "Submitted" }) [])))

def openOrder (id : String) : OpenOrder where
  contract := sampleContract
  order := { action := some "BUY" }
  orderState := { status := "Submitted" }
  orderId := some id

/-- Tick number `i`, up to the listing. -/
def ticked (i : Nat) (ids : List String) : List ObserveEvent :=
  [.call .tick, .resume i (.turn true), .resume i (.listed (ids.map openOrder))]

theorem apartStep_silent {a : ObserveAnswer} (hreply : ∀ raw, a ≠ .ledger (.reply raw))
    (hlisted : ∀ listing, a ≠ .listed listing) (hthrew : ∀ text, a ≠ .ledger (.threw text)) :
    apartStep W (.resume i a) := by
  refine ⟨fun k _ ↦ ⟨?_, fun listing ha ↦ absurd ha (hlisted listing)⟩,
    fun listing _ ha ↦ absurd ha (hlisted listing), fun p text _ ha ↦ absurd ha (hthrew text)⟩
  intro op r hmem
  cases k <;> cases a <;> try cases hmem
  rename_i t b
  simp only [newReplies, Passes.repliesOf] at hmem
  split at hmem
  · exact absurd rfl (hreply _)
  · cases hmem

theorem honest_accepts {t : Task} (hi : W.tasks[2]? = some (.ledger t))
    (hop : dispatched t = some buyOperation) (ho : W.shared.orders = []) :
    honestStep W (.call (.accepts ⟨"1", some 2⟩)) := by
  refine ⟨by simp [ho], ?_⟩
  rintro i ⟨⟩
  exact ⟨t, buyOperation, hi, hop, rfl⟩

theorem honest_replied (message : String) (hash : CommitHash)
    (hi : W.tasks[2]? = some (.ledger (.executing [buyOperation] message hash [])))
    (ho : ⟨"1", some 2⟩ ∈ W.shared.orders) : honestStep W replied := by
  intro k hk
  cases hi.symm.trans hk
  refine ⟨?_, by simp⟩
  intro op r hmem _ id hid
  cases List.mem_singleton.mp hmem
  cases List.mem_singleton.mp hid
  exact ⟨_, ho, rfl, rfl⟩

theorem honest_listed {ids : List String} (h : ∀ id ∈ ids, ∃ b ∈ W.shared.orders, b.id = id) :
    honestStep W (.resume i (.listed (ids.map openOrder))) := by
  intro k _
  refine ⟨?_, ?_⟩
  · intro op r hmem
    cases k <;> cases hmem
  rintro listing ⟨⟩ o ho id hid
  obtain ⟨id', hid', rfl⟩ := List.mem_map.mp ho
  cases (truthy_eq_some.mp hid).1
  exact h _ hid'

/-- No order is that of a push under way when the sample push is over. -/
theorem calm_listed (hi : (W.tasks[2]?.all fun k ↦ k matches .ledger (.done _)) = true)
    (ho : ∀ b ∈ W.shared.orders, b.origin = none ∨ b.origin = some 2) :
    calmStep W (.resume i (.listed listing)) := by
  rintro _ _ ⟨⟩ o _ b hb _ j t hj ht
  rcases ho b hb with hb | hb
  · cases hb.symm.trans hj
  · cases hb.symm.trans hj
    rw [ht] at hi
    cases t with
    | done o => rfl
    | _ => cases hi

/-- The push is recorded, then the broker takes an order of somebody else's, and two
ticks list both. -/
def listedLater : List ObserveEvent :=
  pushed ++ [replied, .resume 2 (.ledger (.state {} 2)), .resume 2 (.ledger .persisted),
    .call (.accepts ⟨"9", none⟩)] ++ ticked 5 ["1", "9"] ++
    [.resume 5 (.state {} 3), .resume 5 (.ledger .persisted), .resume 5 .finished] ++
    ticked 6 ["1", "9"]

/-- An order whose push is recorded is not taken for external, and one of somebody
else's is observed once. -/
theorem never_external_later : ∃ W : ObserveWorld,
    Reach (observeProg sampleAccount).step apartStep ObserveWorld.initial W ∧
      W.shared.commits.flatMap observedIds = ["9"] ∧ NeverExternal W.shared := by
  have hr : Reach (observeProg sampleAccount).step apartStep ObserveWorld.initial (sampleAfter listedLater) := by
    refine .of_after listedLater (by decide +kernel) ?_
    intro n e he
    match n with
    | 0 | 1 | 2 | 8 | 14 =>
      cases he
      exact ⟨trivial, trivial, trivial⟩
    | 3 =>
      cases he
      exact ⟨honest_accepts (t := .executing [buyOperation] "buy" "00000000" [])
        (by decide +kernel) rfl (by decide +kernel), trivial, trivial⟩
    | 4 =>
      cases he
      refine ⟨honest_replied "buy" "00000000" (by decide +kernel) (by decide +kernel), ?_, ?_⟩
      · rintro listing _ ⟨⟩
      · rintro p text _ ⟨⟩
    | 7 =>
      cases he
      refine ⟨⟨by decide +kernel, ?_⟩, trivial, trivial⟩
      rintro i ⟨⟩
    | 5 | 6 | 9 | 11 | 12 | 13 | 15 =>
      cases he
      exact apartStep_silent (by simp) (by simp) (by simp)
    | 10 | 16 =>
      cases he
      refine ⟨honest_listed (by decide +kernel), calm_listed (by decide +kernel)
        (by decide +kernel), ?_⟩
      rintro p text _ ⟨⟩
    | n + 17 => cases he
  exact ⟨_, hr, by decide +kernel, never_external hr⟩

/-- The pass lists the order while its push waits for the reply. -/
def listedBefore : List ObserveEvent :=
  pushed ++ ticked 4 ["1"] ++ [.resume 4 (.state {} 3), replied]

/-- An order that a pass lists before its push is answered is recorded as external. -/
theorem not_never_external : ¬ ∀ (cfg : ObserveConfig) (W : ObserveWorld),
    Reach (observeProg cfg).step honestStep ObserveWorld.initial W → NeverExternal W.shared := by
  intro h
  have hr : Reach (observeProg sampleAccount).step honestStep ObserveWorld.initial (sampleAfter listedBefore) := by
    refine .of_after listedBefore (by decide +kernel) ?_
    intro n e he
    match n with
    | 0 | 1 | 2 | 4 =>
      cases he
      exact trivial
    | 3 =>
      cases he
      exact honest_accepts (t := .executing [buyOperation] "buy" "00000000" [])
        (by decide +kernel) rfl (by decide +kernel)
    | 5 | 7 =>
      cases he
      exact (apartStep_silent (by simp) (by simp) (by simp)).1
    | 6 =>
      cases he
      exact honest_listed (by decide +kernel)
    | 8 =>
      cases he
      exact honest_replied "buy" "00000000" (by decide +kernel) (by decide +kernel)
    | n + 9 => cases he
  have hmem : (buyOperation, parseOperationResult buyOperation
      (.object true none (some "1") (some { status := "Submitted" }) [])) ∈
        (sampleAfter listedBefore).shared.replies := by decide +kernel
  have hapart := (h sampleAccount _ hr).apart _ _ hmem rfl "1" (by decide +kernel)
  revert hapart
  decide +kernel

end OpenAlice.Trading.Observe
