import OpenAlice.Trading.Account.Honest

/-!
# Where the reply to a dispatch goes

`Recorded`: the reply of every dispatch that introduced an order is in the log or
with the write that dispatched it.  `Filed`: the log attributes such an order to
the instrument the broker has it under, and lists it there while it is pending.

The second is about the first place in the log that names an order: the scan for
pending orders takes the instrument from there.  It is the place of the order's
own reply, because an honest broker gives a new order a new id, because a sync
names only orders the log has, and because no two writes overlap.
-/

namespace OpenAlice.Trading.Passes

open OpenAlice.Run OpenAlice.Trading.Git TradingGit

def Introduces (op : Operation) (r : OperationResult) : Prop :=
  op.contract?.isSome = true ∧ (resultId r).isSome = true

/-- No write that dispatched an order fails in `getGitState`. -/
def keptStep (W : PassWorld) : PassEvent → Prop
  | .call _ => True
  | .resume i a => ∀ k, W.tasks[i]? = some k → FailsSnapshot k a →
      ∀ op r, (op, some r) ∈ k.pairs → ¬Introduces op r

/-- The steps of an honest broker that tell the account what it can record, and let
it record it. -/
def recordableStep (W : PassWorld) (e : PassEvent) : Prop :=
  honestStep W e ∧ truthfulStep W e ∧ keptStep W e

/-! ## No reply is lost -/

/-- The reply of every dispatch that introduced an order is in the log, or with
the write that dispatched it. -/
def Recorded (W : PassWorld) : Prop :=
  ∀ op r, (op, r) ∈ W.shared.replies → Introduces op r →
    (op, some r) ∈ logPairs W.shared.commits ∨
      ∃ (i : Nat) (k : PassTask), W.tasks[i]? = some k ∧ (op, some r) ∈ k.pairs

variable {W W' : PassWorld} {S' : Shared} {k k' : PassTask} {i : Nat} {a : PassAnswer}

theorem recorded_initial : Recorded PassWorld.initial := by
  intro op r h
  cases h

theorem Recorded.opening (h : Recorded W) {c : PassCall} (hs : Opening W.shared c S' k') :
    Recorded ⟨S', W.tasks ++ [k']⟩ := by
  intro op r hmem hintro
  show (op, some r) ∈ logPairs S'.commits ∨ _
  rw [hs.log]
  have hmem : (op, r) ∈ W.shared.replies := hs.replies ▸ hmem
  refine (h op r hmem hintro).imp_right ?_
  rintro ⟨j, k, hj, hk⟩
  exact ⟨j, k, (List.getElem?_append_left (List.getElem?_eq_some_iff.mp hj).1).trans hj, hk⟩

theorem Stretch.mem_logPairs {S : Shared} (hs : Stretch S k a S' k')
    {p : Operation × Option OperationResult} (h : p ∈ logPairs S.commits) :
    p ∈ logPairs S'.commits := by
  rcases hs.log with hlog | ⟨c, _, hlog⟩
  · rw [hlog]
    exact h
  · rw [hlog, logPairs_append]
    exact List.mem_append_left _ h

/-- A later stretch loses no reply, unless it fails in `getGitState`. -/
theorem Recorded.stretch (h : Recorded W) (hi : W.tasks[i]? = some k)
    (hkept : keptStep W (.resume i a)) (hs : Stretch W.shared k a S' k') :
    Recorded ⟨S', W.tasks.set i k'⟩ := by
  have self : (W.tasks.set i k')[i]? = some k' := by
    rw [List.getElem?_set_self (List.getElem?_eq_some_iff.mp hi).1]
  intro op r hmem hintro
  have hmem : (op, r) ∈ W.shared.replies ++ newReplies k a := hs.replies ▸ hmem
  rcases List.mem_append.mp hmem with hold | hnew
  · rcases h op r hold hintro with hlog | ⟨j, k₁, hj, hk₁⟩
    · exact .inl (hs.mem_logPairs hlog)
    by_cases hji : j = i
    · subst hji
      cases hi.symm.trans hj
      -- the write that holds the reply moves
      rcases hs.kept op r hk₁ with hk' | ⟨c, hlog, hc⟩ | hfails
      · exact .inr ⟨j, k', self, hk'⟩
      · left
        show (op, some r) ∈ logPairs S'.commits
        rw [hlog, logPairs_append]
        exact List.mem_append_right _ hc
      · exact absurd hintro (hkept k hi hfails op r hk₁)
    · exact .inr ⟨j, k₁, (List.getElem?_set_ne (Ne.symm hji)).trans hj, hk₁⟩
  · exact .inr ⟨i, k', self, hs.joined op r hnew⟩

theorem step_recorded {cfg : PassConfig} {e : PassEvent} (h : Recorded W) (hkept : keptStep W e)
    (hst : (passProg cfg).step W e = some W') : Recorded W' := by
  cases e with
  | call c =>
    cases Prog.step_call hst
    exact h.opening (opening_spec cfg W.shared W.tasks.length c)
  | resume i a =>
    obtain ⟨k, S', k', hi, hr, rfl⟩ := Prog.step_resume hst
    exact h.stretch hi hkept (stretch_spec hr)

theorem newReplies_silent (hreply : ∀ raw now, a ≠ .git (.reply raw) now) :
    newReplies k a = [] := by
  unfold newReplies repliesOf
  repeat' split
  all_goals first | rfl | exact absurd rfl (hreply _ _)

theorem recordableStep_silent (hreply : ∀ raw now, a ≠ .git (.reply raw) now)
    (horder : ∀ brokerOrder, a ≠ .order (some brokerOrder))
    (hthrew : ∀ text now, a ≠ .git (.threw text) now) : recordableStep W (.resume i a) := by
  refine ⟨fun k _ ↦ ⟨?_, ?_⟩, fun k _ ↦ ⟨?_, ?_⟩, fun k _ ↦ ?_⟩
  · simp [newReplies_silent hreply]
  · rintro _ _ _ brokerOrder _ rfl
    exact absurd rfl (horder brokerOrder)
  · simp [newReplies_silent hreply]
  · rintro _ _ _ brokerOrder _ rfl
    exact absurd rfl (horder brokerOrder)
  · rintro ⟨_, text, now, _, rfl⟩
    exact absurd rfl (hthrew text now)

/-! ## Every order is filed under its instrument -/

variable {cfg : PassConfig}

def Matches (cfg : PassConfig) (op : Operation) (o : BrokerOrder) : Prop :=
  (∃ contract, op.contract? = some contract ∧
    contract.aliceId = some (cfg.stampAliceId o.contract)) ∧ op.fillDirection = o.side

/-- The order a reply names is the one its operation asked for. -/
def matchingStep (cfg : PassConfig) (W : PassWorld) : PassEvent → Prop
  | .call _ => True
  | .resume i a => ∀ k, W.tasks[i]? = some k → ∀ op r, (op, r) ∈ newReplies k a →
      op.contract?.isSome = true → ∀ o ∈ W.shared.orders, resultId r = some o.id → Matches cfg op o

def Labelled (cfg : PassConfig) (S : Shared) (p : PendingOrder) : Prop :=
  ∀ o ∈ S.orders, o.id = p.orderId → Accepted S p.orderId →
    p.aliceId = truthy (some (cfg.stampAliceId o.contract))

def firstOf (candidates : List PendingOrder) (id : String) : Option PendingOrder :=
  candidates.find? fun o ↦ o.orderId = id

structure Filed (cfg : PassConfig) (W : PassWorld) : Prop where
  watched : ∀ (i : Nat) (k : PassTask), W.tasks[i]? = some k → ∀ id ∈ k.watched,
    InLog W.shared.commits id
  held : ∀ (i : Nat) (k : PassTask), W.tasks[i]? = some k → ∀ op r, (op, some r) ∈ k.pairs →
    Introduces op r → (op, r) ∈ W.shared.replies
  logged : ∀ op r, (op, some r) ∈ logPairs W.shared.commits → Introduces op r →
    (op, r) ∈ W.shared.replies
  /-- The broker has the order, as the operation asked for it. -/
  placed : ∀ op r, (op, r) ∈ W.shared.replies → Introduces op r →
    (∃ o ∈ W.shared.orders, resultId r = some o.id) ∧
      ∀ o ∈ W.shared.orders, resultId r = some o.id → Matches cfg op o
  first : ∀ id p, firstOf (W.shared.commits.flatMap GitCommit.candidates) id = some p →
    Labelled cfg W.shared p
  /-- So will a write, when it comes to be the first to name the order. -/
  carried : ∀ (i : Nat) (k : PassTask), W.tasks[i]? = some k → ∀ id p,
    ¬InLog W.shared.commits id → firstOf k.candidates id = some p → Labelled cfg W.shared p

theorem filed_initial : Filed cfg PassWorld.initial := by
  constructor <;> simp [PassWorld.initial, Shared.commits, logPairs, firstOf]

variable {id : String}

theorem firstOf_append {l l' : List PendingOrder} :
    firstOf (l ++ l') id = (firstOf l id).or (firstOf l' id) :=
  List.find?_append

variable {p : PendingOrder}

theorem orderId_of_firstOf {l : List PendingOrder}
    (h : firstOf l id = some p) : p ∈ l ∧ p.orderId = id :=
  ⟨List.mem_of_find?_eq_some h, by simpa using List.find?_some h⟩

theorem firstOf_ne_none {l : List PendingOrder} (h : p ∈ l) : firstOf l p.orderId ≠ none := by
  intro hnone
  simpa using List.find?_eq_none.mp hnone p h

theorem mem_candidates_task :
    (∃ p ∈ k.candidates, p.orderId = id) → ∃ r ∈ k.results, id ∈ resultIds r := by
  cases k with
  | git t =>
    cases t with
    | executing | snapshotting => exact mem_candidatesOf_iff.mp
    | _ =>
      rintro ⟨p, hp, _⟩
      cases hp
  | _ =>
    rintro ⟨p, hp, _⟩
    cases hp

variable {r : OperationResult} {op : Operation}

theorem results_of_pair (h : (op, some r) ∈ k.pairs) : r ∈ k.results := by
  cases k with
  | git t =>
    cases t with
    | executing | snapshotting => exact (mem_of_mem_paired h).2 r rfl
    | _ => cases h
  | _ => cases h

theorem candidate_of_pair
    (h : (op, some r) ∈ k.pairs) (hid : id ∈ resultIds r) : ∃ p ∈ k.candidates, p.orderId = id := by
  cases k with
  | git t =>
    cases t with
    | executing | snapshotting =>
      exact mem_candidatesOf_iff.mpr ⟨r, (mem_of_mem_paired h).2 r rfl, hid⟩
    | _ => cases h
  | _ => cases h

theorem inLog_iff {commits : List GitCommit} :
    InLog commits id ↔ ∃ p ∈ commits.flatMap GitCommit.candidates, p.orderId = id := by
  constructor
  · rintro ⟨c, hc, hr⟩
    obtain ⟨p, hp, hid⟩ := mem_candidates_iff.mpr hr
    exact ⟨p, List.mem_flatMap.mpr ⟨c, hc, hp⟩, hid⟩
  rintro ⟨p, hp, hid⟩
  obtain ⟨c, hc, hp⟩ := List.mem_flatMap.mp hp
  exact ⟨c, hc, mem_candidates_iff.mp ⟨p, hp, hid⟩⟩

variable {S : Shared}

theorem newReplies_unique {q q' : Operation × OperationResult} (h : q ∈ newReplies k a)
    (h' : q' ∈ newReplies k a) : q' = q ∧ k.writing = true := by
  unfold newReplies repliesOf at h h'
  split at h
  · split at h
    · exact ⟨Option.some.inj ((Option.mem_toList.mp h').symm.trans (Option.mem_toList.mp h)), rfl⟩
    · cases h
  · cases h

theorem success_of_newReplies
    (h : (op, r) ∈ newReplies k a) (hid : resultId r = some id) : r.success = true := by
  unfold newReplies repliesOf at h
  split at h
  · split at h
    · rename_i raw
      obtain ⟨op', _, he⟩ := Option.map_eq_some_iff.mp (Option.mem_toList.mp h)
      cases he
      match raw, hid with
      | .notObject, hid => cases hid
      | .object false .., hid => cases hid
      | .object true .., _ => rfl
    · cases h
  · cases h

theorem accepted_before (hi : W.tasks[i]? = some k) (hhonest : honestStep W (.resume i a))
    (hs : Stretch W.shared k a S' k') (hknown : Known W.shared id)
    (h : Accepted S' id) : Accepted W.shared id := by
  obtain ⟨op, r, hmem, hcontract, hid⟩ := h
  rw [hs.replies] at hmem
  rcases List.mem_append.mp hmem with hold | hnew
  · exact ⟨op, r, hold, hcontract, hid⟩
  obtain ⟨o, _, ho, hfresh⟩ :=
    (hhonest k hi).1 op r hnew hcontract (success_of_newReplies hnew hid)
  cases hid.symm.trans ho
  exact absurd hknown hfresh

theorem Labelled.evolves (h : Labelled cfg S p) (he : Evolves S S')
    (hknown : Known S p.orderId) (hacc : Accepted S' p.orderId → Accepted S p.orderId) :
    Labelled cfg S' p := by
  intro o' ho' hid hacc'
  rcases he.orders o' ho' with ⟨o, ho, hsame, _⟩ | hnew
  · rw [hsame] at hid ⊢
    exact h o ho hid (hacc hacc')
  · rw [hid] at hnew
    exact absurd hknown hnew

theorem Audited.known_of_inLog (h : Audited W) (hid : InLog W.shared.commits id) :
    Known W.shared id := by
  obtain ⟨c, hc, r, hr, hid⟩ := hid
  exact (h.logged c hc r hr).known id hid

theorem Audited.known_of_candidate (h : Audited W) (hi : W.tasks[i]? = some k)
    (hp : p ∈ k.candidates) : Known W.shared p.orderId := by
  obtain ⟨r, hr, hid⟩ := mem_candidates_task ⟨p, hp, rfl⟩
  exact (h.carried i k hi r hr).known _ hid

theorem Stretch.inLog (hs : Stretch S k a S' k') (h : InLog S.commits id) :
    InLog S'.commits id := by
  obtain ⟨c, hc, hr⟩ := h
  rcases hs.log with hlog | ⟨c', _, hlog⟩
  · exact ⟨c, hlog ▸ hc, hr⟩
  · exact ⟨c, hlog ▸ List.mem_append_left _ hc, hr⟩

theorem Filed.placed_evolves (h : Filed cfg W) (he : Evolves W.shared S')
    (hmem : (op, r) ∈ W.shared.replies) (hintro : Introduces op r) :
    (∃ o ∈ S'.orders, resultId r = some o.id) ∧
      ∀ o ∈ S'.orders, resultId r = some o.id → Matches cfg op o := by
  obtain ⟨⟨o, ho, hid⟩, hmatch⟩ := h.placed op r hmem hintro
  constructor
  · obtain ⟨o', ho', hsame, _⟩ := he.kept o ho
    exact ⟨o', ho', by rw [hid, hsame]⟩
  intro o' ho' hid'
  rcases he.orders o' ho' with ⟨o₀, ho₀, hsame, _⟩ | hnew
  · rw [hsame] at hid' ⊢
    exact hmatch o₀ ho₀ hid'
  · exact absurd ⟨(op, r), hmem, mem_resultIds hid'⟩ hnew

theorem Filed.opening (h : Filed cfg W) (haudited : Audited W) {c : PassCall}
    (hhonest : honestStep W (.call c)) (hs : Opening W.shared c S' k') :
    Filed cfg ⟨S', W.tasks ++ [k']⟩ := by
  have he := hs.evolves hhonest
  have hacc : ∀ id, Accepted S' id → Accepted W.shared id := by
    rintro id ⟨op, r, hmem, hr⟩
    exact ⟨op, r, hs.replies ▸ hmem, hr⟩
  have hnone : ∀ op r, (op, some r) ∈ k'.pairs → ¬Introduces op r := by
    rintro op r hp ⟨_, hid⟩
    rw [resultId_of_nil (hs.results r (results_of_pair hp))] at hid
    cases hid
  constructor
  · intro j k hj id hid
    show InLog S'.commits id
    rw [hs.log]
    rcases World.task_append hj with hj | ⟨_, rfl⟩
    · exact h.watched j k hj id hid
    · obtain ⟨p, hp, rfl⟩ := List.mem_map.mp (hs.watched id hid)
      exact inLog_of_pending hp
  · intro j k hj op r hp hintro
    rcases World.task_append hj with hj | ⟨_, rfl⟩
    · exact he.replies _ (h.held j k hj op r hp hintro)
    · exact absurd hintro (hnone op r hp)
  · intro op r hp hintro
    have hp : (op, some r) ∈ logPairs S'.commits := hp
    rw [hs.log] at hp
    exact he.replies _ (h.logged op r hp hintro)
  · intro op r hmem hintro
    exact h.placed_evolves he (hs.replies ▸ hmem) hintro
  · intro id p hp
    have hp : firstOf (S'.commits.flatMap GitCommit.candidates) id = some p := hp
    rw [hs.log] at hp
    obtain ⟨hmem, rfl⟩ := orderId_of_firstOf hp
    exact (h.first _ p hp).evolves he (haudited.known_of_inLog (inLog_iff.mpr ⟨p, hmem, rfl⟩))
      (hacc _)
  · intro j k hj id p hnot hp
    have hnot : ¬InLog S'.commits id := hnot
    rw [hs.log] at hnot
    obtain ⟨hmem, rfl⟩ := orderId_of_firstOf hp
    rcases World.task_append hj with hj | ⟨_, rfl⟩
    · exact (h.carried j k hj _ p hnot hp).evolves he (haudited.known_of_candidate hj hmem) (hacc _)
    obtain ⟨r, hr, hid⟩ := mem_candidates_task ⟨p, hmem, rfl⟩
    rw [hs.results r hr] at hid
    cases hid

theorem Filed.appended (h : Filed cfg W) (hi : W.tasks[i]? = some k) {c : GitCommit}
    (hc : Appends k c.operations c.results)
    (hnot : ¬InLog W.shared.commits id) (hp : firstOf c.candidates id = some p) :
    Labelled cfg W.shared p ∧ ∃ p ∈ k.candidates, p.orderId = id := by
  obtain ⟨hmem, hid⟩ := orderId_of_firstOf hp
  generalize hops : c.operations = ops at hc
  generalize hres : c.results = res at hc
  rw [GitCommit.candidates, hops, hres] at hp hmem
  cases hc with
  | written hk =>
    subst hk
    exact ⟨h.carried i _ hi id p hnot hp, p, hmem, hid⟩
  | synced hk =>
    subst hk
    obtain ⟨r, hr, hin⟩ := mem_candidatesOf_iff.mp ⟨p, hmem, hid⟩
    obtain ⟨u, hu, rfl⟩ := List.mem_map.mp hr
    rw [← mem_resultIds_syncRow hin] at hnot
    exact absurd (h.watched i _ hi _ (List.mem_map_of_mem hu)) hnot
  | reconciled q _ =>
    obtain ⟨r, hr, hin⟩ := mem_candidatesOf_iff.mp ⟨p, hmem, hid⟩
    rw [List.mem_singleton] at hr
    subst hr
    cases hin

theorem of_appended {c : GitCommit} (hc : Appends k c.operations c.results)
    (h : (op, some r) ∈ c.pairs) (hintro : Introduces op r) :
    (op, some r) ∈ k.pairs := by
  generalize hops : c.operations = ops at hc
  generalize hres : c.results = res at hc
  rw [GitCommit.pairs, hops, hres] at h
  cases hc with
  | written hk =>
    subst hk
    exact h
  | synced hk =>
    obtain ⟨hop, _⟩ := mem_of_mem_paired h
    rw [List.mem_singleton] at hop
    subst hop
    cases hintro.1
  | reconciled q _ =>
    obtain ⟨hop, _⟩ := mem_of_mem_paired h
    rw [List.mem_singleton] at hop
    subst hop
    cases hintro.1

theorem labelled_of_reply (hrecorded : Recorded W)
    (hx : Exclusive Shared.inflight PassTask.writing W) (hi : W.tasks[i]? = some k)
    (hmatch : matchingStep cfg W (.resume i a)) (hs : Stretch W.shared k a S' k')
    (hnew : (op, r) ∈ newReplies k a) (hnot : ¬InLog W.shared.commits id)
    (hbefore : firstOf k.candidates id = none)
    (hp : firstOf (candidatesUnder (some op) r) id = some p) : Labelled cfg S' p := by
  obtain ⟨hmem, rfl⟩ := orderId_of_firstOf hp
  obtain ⟨_, _, rfl⟩ := List.mem_map.mp hmem
  rintro o ho hid ⟨op', r', hmem', hcontract, hid'⟩
  rw [hs.orders] at ho
  rw [hs.replies] at hmem'
  rcases List.mem_append.mp hmem' with hold | hnew'
  · -- a reply before this one: it is in the log, or with this very write
    rcases hrecorded op' r' hold ⟨hcontract, hid' ▸ rfl⟩ with hlog | ⟨j, k₁, hj, hk₁⟩
    · obtain ⟨c, hc, hpair⟩ := List.mem_flatMap.mp hlog
      exact absurd ⟨c, hc, r', (mem_of_mem_paired hpair).2 r' rfl, mem_resultIds hid'⟩ hnot
    have hw : k₁.writing = true := by
      by_contra hw
      rw [(pairs_of_not_writing (by simpa using hw)).1] at hk₁
      cases hk₁
    cases hx.unique i j k k₁ hi hj (newReplies_unique hnew hnew).2 hw
    cases hi.symm.trans hj
    obtain ⟨q, hq, hqid⟩ := candidate_of_pair hk₁ (mem_resultIds hid')
    exact absurd (hqid ▸ hbefore) (firstOf_ne_none hq)
  · cases (newReplies_unique hnew hnew').1
    obtain ⟨⟨contract, hc, halice⟩, _⟩ :=
      hmatch k hi op r hnew hcontract o ho (hid'.trans (congrArg some hid.symm))
    simp only [Option.bind_some, hc, halice]

theorem Filed.stretch (h : Filed cfg W) (haudited : Audited W) (hrecorded : Recorded W)
    (hx : Exclusive Shared.inflight PassTask.writing W) (hi : W.tasks[i]? = some k)
    (hhonest : honestStep W (.resume i a)) (hmatch : matchingStep cfg W (.resume i a))
    (hs : Stretch W.shared k a S' k') : Filed cfg ⟨S', W.tasks.set i k'⟩ := by
  have he := hs.evolves
  have hlabel : ∀ p, Labelled cfg W.shared p → Known W.shared p.orderId → Labelled cfg S' p :=
    fun p hp hknown ↦ hp.evolves he hknown (accepted_before hi hhonest hs hknown)
  constructor
  · intro j k₁ hj id hid
    rcases World.task_set hj with ⟨_, rfl⟩ | ⟨_, hj⟩
    · exact hs.inLog (h.watched i k hi id (hs.watched id hid))
    · exact hs.inLog (h.watched j k₁ hj id hid)
  · intro j k₁ hj op r hp hintro
    show (op, r) ∈ S'.replies
    rcases World.task_set hj with ⟨_, rfl⟩ | ⟨_, hj⟩
    · rcases hs.traced op r hp with hold | hnew | hnone
      · exact he.replies _ (h.held i k hi op r hold hintro)
      · rw [hs.replies]
        exact List.mem_append_right _ hnew
      · exact absurd hnone (Option.isSome_iff_ne_none.mp hintro.2)
    · exact he.replies _ (h.held j k₁ hj op r hp hintro)
  · intro op r hp hintro
    have hp : (op, some r) ∈ logPairs S'.commits := hp
    rcases hs.log with hlog | ⟨c, hc, hlog⟩
    · rw [hlog] at hp
      exact he.replies _ (h.logged op r hp hintro)
    rw [hlog, logPairs_append] at hp
    rcases List.mem_append.mp hp with hp | hp
    · exact he.replies _ (h.logged op r hp hintro)
    · exact he.replies _ (h.held i k hi op r (of_appended hc hp hintro) hintro)
  · intro op r hmem hintro
    have hmem : (op, r) ∈ W.shared.replies ++ newReplies k a := hs.replies ▸ hmem
    rcases List.mem_append.mp hmem with hold | hnew
    · exact h.placed_evolves he hold hintro
    obtain ⟨id, hid⟩ := Option.isSome_iff_exists.mp hintro.2
    show (∃ o ∈ S'.orders, _) ∧ ∀ o ∈ S'.orders, _
    rw [hs.orders]
    constructor
    · obtain ⟨o, ho, hoid, _⟩ :=
        (hhonest k hi).1 op r hnew hintro.1 (success_of_newReplies hnew hid)
      exact ⟨o, ho, hoid⟩
    · exact hmatch k hi op r hnew hintro.1
  · intro id p hp
    have hp : firstOf (S'.commits.flatMap GitCommit.candidates) id = some p := hp
    rcases hs.log with hlog | ⟨c, hc, hlog⟩
    · rw [hlog] at hp
      obtain ⟨hmem, rfl⟩ := orderId_of_firstOf hp
      exact hlabel p (h.first _ p hp) (haudited.known_of_inLog (inLog_iff.mpr ⟨p, hmem, rfl⟩))
    rw [hlog, List.flatMap_append, List.flatMap_singleton, firstOf_append] at hp
    cases hfirst : firstOf (W.shared.commits.flatMap GitCommit.candidates) id with
    | some q =>
      rw [hfirst, Option.some_or] at hp
      cases hp
      obtain ⟨hmem, rfl⟩ := orderId_of_firstOf hfirst
      exact hlabel p (h.first _ p hfirst) (haudited.known_of_inLog (inLog_iff.mpr ⟨p, hmem, rfl⟩))
    | none =>
      rw [hfirst, Option.none_or] at hp
      have hnot : ¬InLog W.shared.commits id := by
        intro hin
        obtain ⟨q, hq, rfl⟩ := inLog_iff.mp hin
        exact firstOf_ne_none hq hfirst
      obtain ⟨_, rfl⟩ := orderId_of_firstOf hp
      obtain ⟨hp, q, hq, hqid⟩ := h.appended hi hc hnot hp
      exact hlabel p hp (hqid ▸ haudited.known_of_candidate hi hq)
  · intro j k₁ hj id p hnot hp
    have hno : ¬InLog W.shared.commits id := fun hin ↦ hnot (hs.inLog hin)
    have hold : ∀ (j : Nat) k₁, W.tasks[j]? = some k₁ → firstOf k₁.candidates id = some p →
        Labelled cfg S' p := by
      intro j k₁ hj hp
      obtain ⟨hmem, rfl⟩ := orderId_of_firstOf hp
      exact hlabel p (h.carried j k₁ hj _ p hno hp) (haudited.known_of_candidate hj hmem)
    rcases World.task_set hj with ⟨_, rfl⟩ | ⟨_, hj⟩
    · rcases hs.listed with hsame | hnone | ⟨op, r, hr, hmore⟩
      · exact hold i k hi (hsame ▸ hp)
      · rw [hnone] at hp
        cases hp
      · rw [hmore, firstOf_append] at hp
        cases hbefore : firstOf k.candidates id with
        | some q =>
          rw [hbefore, Option.some_or] at hp
          exact hold i k hi (hbefore.trans hp)
        | none =>
          rw [hbefore, Option.none_or] at hp
          rcases hr with hnew | hnil
          · exact labelled_of_reply hrecorded hx hi hmatch hs hnew hno hbefore hp
          · simp [candidatesUnder, hnil, firstOf] at hp
    · exact hold j k₁ hj hp

theorem step_filed {e : PassEvent} (h : Filed cfg W) (haudited : Audited W)
    (hrecorded : Recorded W) (hx : Exclusive Shared.inflight PassTask.writing W)
    (hhonest : honestStep W e) (hmatch : matchingStep cfg W e)
    (hst : (passProg cfg).step W e = some W') : Filed cfg W' := by
  cases e with
  | call c =>
    cases Prog.step_call hst
    exact h.opening haudited hhonest (opening_spec cfg W.shared W.tasks.length c)
  | resume i a =>
    obtain ⟨k, S', k', hi, hr, rfl⟩ := Prog.step_resume hst
    exact h.stretch haudited hrecorded hx hi hhonest hmatch (stretch_spec hr)

end OpenAlice.Trading.Passes
