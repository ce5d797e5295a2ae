import OpenAlice.Trading.Account.PassCases

/-!
# The ledger behind an honest broker

An honest broker gives every order an id of its own, ends an order once, and says
of an order what has become of it.  `Audited` is what then holds of everything
the account has recorded or is about to record: a result that says filled,
cancelled or rejected says so of an order that is, and a fill comes with the
quantity and the price of the execution.

Two ways in which the account itself loses a fill are ruled out by
`truthfulStep`: a push reply that reports the order filled, because the ledger
takes no execution data from a reply; and an order that still works under a
status that `sync` reads as rejected.
-/

namespace OpenAlice.Trading.Passes

open OpenAlice.Run OpenAlice.Trading.Git TradingGit

/-! ## What an honest broker does -/

def Known (S : Shared) (id : String) : Prop := ∃ q ∈ S.replies, id ∈ resultIds q.2

/-- An order that was accepted through the account: the reply to its dispatch
named it. -/
def Accepted (S : Shared) (id : String) : Prop :=
  ∃ op r, (op, r) ∈ S.replies ∧ op.contract?.isSome = true ∧ resultId r = some id

/-- The reply to a dispatch: when it accepts an order it names one the broker has,
under a new id. -/
def HonestReply (S : Shared) (op : Operation) (r : OperationResult) : Prop :=
  op.contract?.isSome = true → r.success = true →
    ∃ o ∈ S.orders, resultId r = some o.id ∧ ¬Known S o.id

/-- The answer of `getOrder` about an order: of a filled order the executed
quantity and the average price, unless the answer lags behind; of any other order
not that it filled. -/
def HonestOrder (o : BrokerOrder) (brokerOrder : OpenOrder) : Prop :=
  match o.fate with
  | .filled qty price =>
    brokerOrder.orderState.status = "Filled" ∧ brokerOrder.order.filledQuantity = some qty ∧
        brokerOrder.avgFillPrice = some price ∨
      brokerOrder.orderState.status = "Submitted" ∨ brokerOrder.orderState.status = "PreSubmitted"
  | .working | .closed => brokerOrder.orderState.status ≠ "Filled"

def honestStep (W : PassWorld) : PassEvent → Prop
  | .call (.broker (.accepts id _ _)) =>
    id ≠ "" ∧ (∀ o ∈ W.shared.orders, o.id ≠ id) ∧ ¬Known W.shared id
  | .call (.broker (.fills _ qty _)) => 0 < qty ∧ qty ≠ unsetDecimal
  | .call _ => True
  | .resume i a => ∀ k, W.tasks[i]? = some k →
      (∀ op r, (op, r) ∈ newReplies k a → HonestReply W.shared op r) ∧
        ∀ p candidates updates brokerOrder, k = .polling p candidates updates →
          a = .order (some brokerOrder) → ∀ o ∈ W.shared.orders, o.id = p.orderId →
            HonestOrder o brokerOrder

/-- A status the ledger can take from a reply: not that the order filled, and that
it was rejected or cancelled only when it was. -/
def Recordable (fate : Fate) : OperationStatus → Prop
  | .submitted => True
  | .filled => False
  | .rejected | .cancelled | .userRejected => fate = .closed

/-- The steps that tell the account what it can record: every reply reports its
order under a recordable status, and a working order shows as submitted. -/
def truthfulStep (W : PassWorld) : PassEvent → Prop
  | .call _ => True
  | .resume i a => ∀ k, W.tasks[i]? = some k →
      (∀ op r, (op, r) ∈ newReplies k a → ∀ o ∈ W.shared.orders, resultId r = some o.id →
          Recordable o.fate r.status) ∧
        ∀ p candidates updates brokerOrder, k = .polling p candidates updates →
          a = .order (some brokerOrder) → ∀ o ∈ W.shared.orders, o.id = p.orderId →
            o.fate = .working → brokerOrder.orderState.status = "Submitted" ∨
              brokerOrder.orderState.status = "PreSubmitted"

/-! ## What the ledger may hold -/

def Sound (fate : Fate) (r : OperationResult) : Prop :=
  match r.status with
  | .submitted => True
  | .filled => ∃ qty price, fate = .filled qty price ∧ r.fill? = some (qty, price)
  | .rejected | .cancelled | .userRejected => fate = .closed

/-- A result mentions orders the broker has mentioned, and is sound. -/
structure Good (S : Shared) (r : OperationResult) : Prop where
  known : ∀ id ∈ resultIds r, Known S id
  sound : ∀ o ∈ S.orders, resultId r = some o.id → Sound o.fate r

def BrokerOrder.Becomes (o o' : BrokerOrder) : Prop :=
  o' = { o with fate := o'.fate } ∧ (o'.fate = o.fate ∨ o.fate = .working)

/-- What happens to the broker's orders and to the history: replies are added, a
working order may end, and new orders have new ids. -/
structure Evolves (S S' : Shared) : Prop where
  replies : ∀ q ∈ S.replies, q ∈ S'.replies
  orders : ∀ o' ∈ S'.orders, (∃ o ∈ S.orders, o.Becomes o') ∨ ¬Known S o'.id
  kept : ∀ o ∈ S.orders, ∃ o' ∈ S'.orders, o.Becomes o'

theorem Evolves.known {S S' : Shared} (h : Evolves S S') {id : String} (hid : Known S id) :
    Known S' id := by
  obtain ⟨q, hq, hid⟩ := hid
  exact ⟨q, h.replies q hq, hid⟩

variable {r : OperationResult}

theorem good_of_nil {S : Shared} (h : resultIds r = []) : Good S r := by
  have hid : resultId r = none := resultId_of_nil h
  constructor
  · rw [h]
    intro id hid
    cases hid
  intro o _ ho
  rw [hid] at ho
  cases ho

theorem mem_resultIds_syncRow {u : OrderStatusUpdate} {id : String}
    (h : id ∈ resultIds (syncRow u)) : u.orderId = id := by
  have hmem : id ∈ (truthy (some u.orderId)).toList ++ [] := h
  rw [List.append_nil, Option.mem_toList] at hmem
  exact Option.some.inj (truthy_eq_some.mp hmem).1

theorem sound_filled {qty price : Decimal} (hs : r.status = .filled)
    (hf : r.fill? = some (qty, price)) : Sound (.filled qty price) r := by
  rw [Sound, hs]
  exact ⟨qty, price, rfl, hf⟩

theorem sound_of_recordable {fate : Fate} (h : Recordable fate r.status) :
    Sound fate r := by
  unfold Sound
  cases hs : r.status with
  | submitted => trivial
  | filled =>
    rw [hs] at h
    cases h
  | rejected | cancelled | userRejected =>
    rw [hs] at h
    exact h

theorem Sound.submitted (h : Sound .working r) : r.status = .submitted := by
  unfold Sound at h
  split at h
  · assumption
  · obtain ⟨_, _, h, _⟩ := h
    cases h
  all_goals cases h

theorem Sound.filled {fate : Fate} {qty price : Decimal} (h : Sound fate r)
    (hfate : fate = .filled qty price) (hs : r.status ≠ .submitted) :
    r.status = .filled ∧ r.fill? = some (qty, price) := by
  subst hfate
  unfold Sound at h
  split at h
  · contradiction
  · rename_i hstatus
    obtain ⟨_, _, he, hfill⟩ := h
    cases he
    exact ⟨hstatus, hfill⟩
  all_goals cases h

theorem Good.evolves {S S' : Shared} (h : Good S r) (he : Evolves S S') :
    Good S' r := by
  refine ⟨fun id hid ↦ he.known (h.known id hid), ?_⟩
  intro o' ho' hid
  rcases he.orders o' ho' with ⟨o, ho, hsame, hfate | hfate⟩ | hnew
  · rw [hfate]
    exact h.sound o ho (hid.trans (by rw [hsame]))
  · have hsound := h.sound o ho (hid.trans (by rw [hsame]))
    rw [hfate] at hsound
    rw [Sound, hsound.submitted]
    trivial
  · exact absurd (h.known o'.id (mem_resultIds hid)) hnew

/-! ## The invariant -/

/-- What holds of everything recorded or about to be. -/
structure Audited (W : PassWorld) : Prop where
  logged : ∀ c ∈ W.shared.commits, ∀ r ∈ c.results, Good W.shared r
  carried : ∀ (i : Nat) (k : PassTask), W.tasks[i]? = some k → ∀ r ∈ k.results, Good W.shared r
  watched : ∀ (i : Nat) (k : PassTask), W.tasks[i]? = some k → ∀ id ∈ k.watched, Known W.shared id
  quiet : ∀ (i : Nat) (k : PassTask), W.tasks[i]? = some k → k.Quiet
  rows : ∀ c ∈ W.shared.commits, c.isSync = true ∨
    ∀ r ∈ c.results, (resultId r).isSome = true → r.fill? = none
  fills : ∀ o ∈ W.shared.orders, ∀ qty price, o.fate = .filled qty price →
    0 < qty ∧ qty ≠ unsetDecimal

theorem audited_initial : Audited PassWorld.initial := by
  constructor <;> simp [PassWorld.initial, Shared.commits]

variable {S S' : Shared} {W W' : PassWorld}

theorem BrokerOrder.Becomes.refl (o : BrokerOrder) : o.Becomes o := ⟨rfl, .inl rfl⟩

theorem becomes_settle (id : String) (fate : Fate) (o : BrokerOrder) :
    o.Becomes (o.settle id fate) := by
  simp only [BrokerOrder.settle]
  split
  · rename_i hw
    exact ⟨rfl, .inr hw.2⟩
  · exact .refl o

theorem evolves_apply {e : BrokerEvent} (hok : honestStep W (.call (.broker e)))
    (hr : S'.replies = W.shared.replies)
    (ho : S'.orders = e.apply W.shared.orders) : Evolves W.shared S' := by
  refine ⟨fun _ hq ↦ hr ▸ hq, ?_, ?_⟩
  · rw [ho]
    intro o' ho'
    cases e with
    | accepts id contract side =>
      rcases List.mem_append.mp ho' with ho' | ho'
      · exact .inl ⟨o', ho', .refl o'⟩
      rw [List.mem_singleton] at ho'
      subst ho'
      exact .inr hok.2.2
    | fills id qty price =>
      obtain ⟨o, ho, rfl⟩ := List.mem_map.mp ho'
      exact .inl ⟨o, ho, becomes_settle _ _ o⟩
    | closes id =>
      obtain ⟨o, ho, rfl⟩ := List.mem_map.mp ho'
      exact .inl ⟨o, ho, becomes_settle _ _ o⟩
  · rw [ho]
    intro o hmem
    cases e with
    | accepts id contract side => exact ⟨o, List.mem_append_left _ hmem, .refl o⟩
    | fills id qty price => exact ⟨_, List.mem_map_of_mem hmem, becomes_settle _ _ o⟩
    | closes id => exact ⟨_, List.mem_map_of_mem hmem, becomes_settle _ _ o⟩

theorem fills_apply {e : BrokerEvent} (hok : honestStep W (.call (.broker e)))
    (h : ∀ o ∈ W.shared.orders, ∀ qty price, o.fate = .filled qty price →
      0 < qty ∧ qty ≠ unsetDecimal) :
    ∀ o ∈ e.apply W.shared.orders, ∀ qty price, o.fate = .filled qty price →
      0 < qty ∧ qty ≠ unsetDecimal := by
  cases e with
  | accepts id contract side =>
    intro o ho qty price hfate
    rcases List.mem_append.mp ho with ho | ho
    · exact h o ho qty price hfate
    rw [List.mem_singleton] at ho
    subst ho
    cases hfate
  | fills id qty' price' =>
    intro o ho qty price hfate
    obtain ⟨o', ho', rfl⟩ := List.mem_map.mp ho
    simp only [BrokerOrder.settle] at hfate
    split at hfate
    · cases hfate
      exact hok
    · exact h o' ho' qty price hfate
  | closes id =>
    intro o ho qty price hfate
    obtain ⟨o', ho', rfl⟩ := List.mem_map.mp ho
    simp only [BrokerOrder.settle] at hfate
    split at hfate
    · cases hfate
    · exact h o' ho' qty price hfate

theorem evolves_replies {replies : List (Operation × OperationResult)}
    (ho : S'.orders = S.orders) (hr : S'.replies = S.replies ++ replies) : Evolves S S' where
  replies _ hq := hr ▸ List.mem_append_left _ hq
  orders o ho' := .inl ⟨o, ho ▸ ho', .refl o⟩
  kept o ho' := ⟨o, ho ▸ ho', .refl o⟩

theorem good_polled {p : PendingOrder} {brokerOrder : OpenOrder} {u : OrderStatusUpdate}
    (hu : updateOf p brokerOrder = some u) (hknown : Known S p.orderId)
    (hhonest : ∀ o ∈ S.orders, o.id = p.orderId → HonestOrder o brokerOrder)
    (hworking : ∀ o ∈ S.orders, o.id = p.orderId → o.fate = .working →
      brokerOrder.orderState.status = "Submitted" ∨ brokerOrder.orderState.status = "PreSubmitted")
    (hfills : ∀ o ∈ S.orders, ∀ qty price, o.fate = .filled qty price →
      0 < qty ∧ qty ≠ unsetDecimal) : Good S (syncRow u) := by
  have hid : u.orderId = p.orderId := updateOf_orderId hu
  constructor
  · intro id hmem
    rw [← mem_resultIds_syncRow hmem, hid]
    exact hknown
  intro o ho hoid
  have hmine : o.id = p.orderId := (mem_resultIds_syncRow (mem_resultIds hoid)).symm.trans hid
  have hh := hhonest o ho hmine
  simp only [updateOf] at hu
  split at hu
  · cases hu
  rename_i hclosed
  cases hu
  cases hfate : o.fate with
  | working => exact absurd (hworking o ho hmine hfate) hclosed
  | filled qty price =>
    rw [HonestOrder, hfate] at hh
    obtain ⟨hs, hq, hp⟩ := hh.resolve_right hclosed
    refine sound_filled ?_ ?_
    · simp [syncRow, hs]
    · simp [syncRow, OperationResult.fill?, stripUnset, hq, hp, (hfills o ho qty price hfate).2]
  | closed =>
    rw [HonestOrder, hfate] at hh
    have hh : brokerOrder.orderState.status ≠ "Filled" := hh
    by_cases hcancelled : brokerOrder.orderState.status = "Cancelled" <;>
      simp [Sound, syncRow, hh, hcancelled]

theorem Audited.known_of_pending (h : Audited W) :
    ∀ id ∈ (getPendingOrderIds W.shared.commits).map PendingOrder.orderId, Known W.shared id := by
  intro id hid
  obtain ⟨p, hp, rfl⟩ := List.mem_map.mp hid
  obtain ⟨c, hc, r, hr, hid⟩ := inLog_of_pending hp
  exact (h.logged c hc r hr).known _ hid

theorem good_fresh (h : Audited W) {i : Nat} {k : PassTask} {a : PassAnswer}
    (hi : W.tasks[i]? = some k) (hhonest : honestStep W (.resume i a))
    (htruthful : truthfulStep W (.resume i a))
    (hreplies : S'.replies = W.shared.replies ++ newReplies k a)
    (horders : S'.orders = W.shared.orders) (hr : Fresh k a r) :
    Good S' r := by
  have hevolves := evolves_replies horders hreplies
  obtain ⟨_, horder⟩ := hhonest k hi
  obtain ⟨hrecordable, hworking⟩ := htruthful k hi
  cases hr with
  | @replied _ _ op r hq =>
    constructor
    · intro id hid
      exact ⟨(op, r), hreplies ▸ List.mem_append_right _ hq, hid⟩
    intro o ho hid
    rw [horders] at ho
    exact sound_of_recordable (hrecordable op r hq o ho hid)
  | threw op text => exact good_of_nil rfl
  | @polled p candidates updates brokerOrder u hu =>
    refine Good.evolves (good_polled hu ?_ ?_ ?_ h.fills) hevolves
    · exact h.watched i _ hi _ List.mem_cons_self
    · exact horder p candidates updates brokerOrder rfl rfl
    · exact hworking p candidates updates brokerOrder rfl rfl

theorem good_appended (h : Audited W) {i : Nat} {k : PassTask} (hi : W.tasks[i]? = some k)
    {operations : List Operation} {results : List OperationResult}
    (hc : Appends k operations results) : ∀ r ∈ results, Good W.shared r := by
  cases hc with
  | written hk =>
    subst hk
    exact h.carried i _ hi
  | synced hk =>
    subst hk
    exact h.carried i _ hi
  | reconciled p _ =>
    intro r hr
    rw [List.mem_singleton] at hr
    subst hr
    exact good_of_nil rfl

theorem rows_appended (h : Audited W) {i : Nat} {k : PassTask} (hi : W.tasks[i]? = some k)
    {c : GitCommit} (hc : Appends k c.operations c.results) :
    c.isSync = true ∨ ∀ r ∈ c.results, (resultId r).isSome = true → r.fill? = none := by
  generalize hops : c.operations = ops at hc
  generalize hres : c.results = res at hc
  cases hc with
  | @written p hk =>
    subst hk
    have hquiet : Git.Quiet p.results := h.quiet i _ hi
    exact .inr fun r hr _ ↦ hquiet r hr
  | synced hk => exact .inl (by simp [GitCommit.isSync, hops])
  | reconciled p _ =>
    right
    intro r hr hid
    rw [List.mem_singleton] at hr
    subst hr
    cases hid

theorem Opening.evolves {c : PassCall} {k' : PassTask} (hhonest : honestStep W (.call c))
    (hs : Opening W.shared c S' k') : Evolves W.shared S' := by
  cases c with
  | broker e => exact evolves_apply hhonest hs.replies hs.orders
  | _ => exact evolves_replies hs.orders (hs.replies.trans (List.append_nil _).symm)

theorem Stretch.evolves {a : PassAnswer} {k k' : PassTask} (hs : Stretch S k a S' k') :
    Evolves S S' :=
  evolves_replies hs.orders hs.replies

theorem Audited.opening (h : Audited W) {c : PassCall} {k' : PassTask}
    (hhonest : honestStep W (.call c)) (hs : Opening W.shared c S' k') :
    Audited ⟨S', W.tasks ++ [k']⟩ := by
  have hevolves := hs.evolves hhonest
  constructor
  · show ∀ c ∈ S'.commits, ∀ r ∈ c.results, Good S' r
    rw [hs.log]
    exact fun c hc r hr ↦ (h.logged c hc r hr).evolves hevolves
  · intro j k hj r hr
    rcases World.task_append hj with hj | ⟨_, rfl⟩
    · exact (h.carried j k hj r hr).evolves hevolves
    · exact good_of_nil (hs.results r hr)
  · intro j k hj id hid
    rcases World.task_append hj with hj | ⟨_, rfl⟩
    · exact hevolves.known (h.watched j k hj id hid)
    · exact hevolves.known (h.known_of_pending id (hs.watched id hid))
  · intro j k hj
    rcases World.task_append hj with hj | ⟨_, rfl⟩
    · exact h.quiet j k hj
    · exact hs.quiet
  · show ∀ c ∈ S'.commits, _
    rw [hs.log]
    exact h.rows
  · show ∀ o ∈ S'.orders, _
    rw [hs.orders]
    cases c with
    | broker e => exact fills_apply hhonest h.fills
    | _ => exact h.fills

theorem Audited.stretch (h : Audited W) {i : Nat} {a : PassAnswer} {k k' : PassTask}
    (hi : W.tasks[i]? = some k) (hhonest : honestStep W (.resume i a))
    (htruthful : truthfulStep W (.resume i a)) (hs : Stretch W.shared k a S' k') :
    Audited ⟨S', W.tasks.set i k'⟩ := by
  have hevolves := hs.evolves
  constructor
  · show ∀ c ∈ S'.commits, ∀ r ∈ c.results, Good S' r
    have hold : ∀ c ∈ W.shared.commits, ∀ r ∈ c.results, Good S' r :=
      fun c hc r hr ↦ (h.logged c hc r hr).evolves hevolves
    rcases hs.log with hlog | ⟨c, hc, hlog⟩
    · rw [hlog]
      exact hold
    · rw [hlog, List.forall_mem_append, List.forall_mem_singleton]
      exact ⟨hold, fun r hr ↦ (good_appended h hi hc r hr).evolves hevolves⟩
  · intro j k₁ hj r hr
    rcases World.task_set hj with ⟨_, rfl⟩ | ⟨_, hj⟩
    · rcases hs.results r hr with hr | hr
      · exact (h.carried i k hi r hr).evolves hevolves
      · exact good_fresh h hi hhonest htruthful hs.replies hs.orders hr
    · exact (h.carried j k₁ hj r hr).evolves hevolves
  · intro j k₁ hj id hid
    rcases World.task_set hj with ⟨_, rfl⟩ | ⟨_, hj⟩
    · exact hevolves.known (h.watched i k hi id (hs.watched id hid))
    · exact hevolves.known (h.watched j k₁ hj id hid)
  · intro j k₁ hj
    rcases World.task_set hj with ⟨_, rfl⟩ | ⟨_, hj⟩
    · exact hs.quiet (h.quiet i k hi)
    · exact h.quiet j k₁ hj
  · show ∀ c ∈ S'.commits, _
    rcases hs.log with hlog | ⟨c, hc, hlog⟩
    · rw [hlog]
      exact h.rows
    · rw [hlog, List.forall_mem_append, List.forall_mem_singleton]
      exact ⟨h.rows, rows_appended h hi hc⟩
  · show ∀ o ∈ S'.orders, _
    rw [hs.orders]
    exact h.fills

theorem step_audited {cfg : PassConfig} {e : PassEvent} (h : Audited W)
    (hhonest : honestStep W e) (htruthful : truthfulStep W e)
    (hst : (passProg cfg).step W e = some W') : Audited W' := by
  cases e with
  | call c =>
    cases Prog.step_call hst
    exact h.opening hhonest (opening_spec cfg W.shared W.tasks.length c)
  | resume i a =>
    obtain ⟨k, S', k', hi, hr, rfl⟩ := Prog.step_resume hst
    exact h.stretch hi hhonest htruthful (stretch_spec hr)

/-- **The books stay sound** in every run of an honest broker that tells the
account what it can record. -/
theorem audited_of_reach {cfg : PassConfig} {ok : PassWorld → PassEvent → Prop}
    (hok : ∀ V e, ok V e → honestStep V e ∧ truthfulStep V e)
    (h : Reach (passProg cfg).step ok PassWorld.initial W) : Audited W :=
  h.invariant audited_initial fun V e _ hV hstep hst ↦
    step_audited hV (hok V e hstep).1 (hok V e hstep).2 hst

end OpenAlice.Trading.Passes
