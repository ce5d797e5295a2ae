import OpenAlice.Trading.Account.Push
import OpenAlice.Trading.Git.Digest

/-!
# The risk envelope of automated pushes

Whether an operation is checked is decided when the dispatcher reads the shared
flag, not when the push it belongs to was made.  As long as a push enters the
ledger only while no other push can still read or clear the flag that is meant
for it, the flag always says what kind of push is dispatching
(`risk_envelope`).  Two overlapping pushes already break it
(`not_risk_envelope`).
-/

namespace OpenAlice.Trading.Push

open OpenAlice.Run OpenAlice.Trading.Git TradingGit

/-! ## What the history says of one call -/

/-- What the dispatcher did for call number `i`, in order. -/
def actsOf (i : Nat) (history : List (Nat × DispatchAct)) : List DispatchAct :=
  history.filterMap fun q ↦ if q.1 = i then some q.2 else none

@[simp] theorem actsOf_append (i : Nat) (l l' : List (Nat × DispatchAct)) :
    actsOf i (l ++ l') = actsOf i l ++ actsOf i l' :=
  List.filterMap_append

theorem actsOf_self (i : Nat) (acts : List DispatchAct) :
    actsOf i (acts.map (Prod.mk i)) = acts := by
  simp [actsOf, List.filterMap_map]

theorem actsOf_ne {i j : Nat} (h : i ≠ j) (acts : List DispatchAct) :
    actsOf j (acts.map (Prod.mk i)) = [] := by
  simp [actsOf, List.filterMap_map, h]

theorem actsOf_eq_nil {n : Nat} {history : List (Nat × DispatchAct)}
    (h : ∀ q ∈ history, q.1 < n) : actsOf n history = [] := by
  rw [actsOf, List.filterMap_eq_nil_iff]
  intro q hq
  simp [Nat.ne_of_lt (h q hq)]

/-- Every operation the broker was called for passed the check just before. -/
def Vetted (acts : List DispatchAct) : Prop :=
  ∀ l op l', acts = l ++ .execute op :: l' → ∃ l₀, l = l₀ ++ [.passed op]

def Unchecked (acts : List DispatchAct) : Prop := ∀ op, .check op ∉ acts

/-- **The risk envelope.**  Every operation of an automated push was executed
right after it passed the check, and no operation of another call was checked. -/
structure RiskEnvelope (W : PushWorld) : Prop where
  automated : ∀ (i : Nat) t, W.tasks[i]? = some t → t.automated = true →
    Vetted (actsOf i W.shared.history)
  manual : ∀ (i : Nat) t, W.tasks[i]? = some t → t.automated = false →
    Unchecked (actsOf i W.shared.history)

theorem vetted_nil : Vetted [] := by
  intro l op l' h
  simp at h

theorem unchecked_nil : Unchecked [] := by
  intro op h
  cases h

variable {acts : List DispatchAct}

theorem Vetted.concat (h : Vetted acts) {a : DispatchAct}
    (ha : ∀ op, a = .execute op → ∃ l, acts = l ++ [.passed op]) : Vetted (acts ++ [a]) := by
  intro l op l' he
  rcases List.eq_nil_or_concat l' with rfl | ⟨l'', b, rfl⟩
  · obtain ⟨rfl, hb⟩ := List.append_inj' he rfl
    cases hb
    exact ha op rfl
  rw [List.concat_eq_append, ← List.cons_append, ← List.append_assoc] at he
  obtain ⟨rfl, _⟩ := List.append_inj' he rfl
  exact h l op l'' rfl

theorem Unchecked.concat (h : Unchecked acts) {a : DispatchAct}
    (ha : ∀ op, a ≠ .check op) : Unchecked (acts ++ [a]) := by
  intro op hm
  rcases List.mem_append.mp hm with hm | hm
  · exact h op hm
  · exact ha op (List.mem_singleton.mp hm).symm

/-! ## What a stretch does -/

/-- A stretch of call number `i` that adds `acts` to the history. -/
structure Stretch (A A' : Account) (i : Nat) (acts : List DispatchAct) : Prop where
  history : A'.history = A.history ++ acts.map (Prod.mk i)
  flag : A'.automatedPushActive = A.automatedPushActive

theorem Stretch.refl (A : Account) (i : Nat) : Stretch A A i [] := ⟨by simp, rfl⟩

theorem Stretch.note (A : Account) (i : Nat) (a : DispatchAct) : Stretch A (A.note i a) i [a] :=
  ⟨rfl, rfl⟩

variable {A A' : Account} {i : Nat}

theorem Stretch.ledger {L : Ledger}
    (h : Stretch { A with ledger := L } A' i acts) : Stretch A A' i acts :=
  ⟨h.history, h.flag⟩

/-- What `perform` does for an operation. -/
inductive Performs (op : Operation) : List DispatchAct → Stage → Prop
  | executing {l : Loop} : Performs op [.execute op] (.executing l)
  | closing {l : Loop} {contract : Contract} {quantity : Decimal}
      (h : op = .closePosition contract (some quantity)) :
      Performs op [] (.closing l contract quantity)
  | failing {l : Loop} {message : String} : Performs op [] (.failing l message)

/-- What the dispatcher does for the operation it is entered with, by the flag it
reads. -/
inductive Dispatches (flag : Bool) : List DispatchAct → Stage → Prop
  | guarding {l : Loop} {op : Operation} : Dispatches flag [] (.guarding l op)
  | failing {l : Loop} {message : String} : Dispatches flag [] (.failing l message)
  | checking {l : Loop} {op : Operation} (h : flag = true) :
      Dispatches flag [.check op] (.checking l op)
  | performs {op : Operation} {acts : List DispatchAct} {st : Stage} (h : flag = false)
      (hp : Performs op acts st) : Dispatches flag acts st

inductive Leaves : Stage → Prop
  | writing {task : Task} {p : Pending} (h : task = .snapshotting p ∨ task = .persisting p) :
      Leaves (.writing task)
  | settling {o : Outcome} : Leaves (.settling o)

/-- How a push goes on after a callback of the ledger. -/
inductive Follows (flag : Bool) : List DispatchAct → Stage → Prop
  | dispatches {acts : List DispatchAct} {st : Stage} (h : Dispatches flag acts st) :
      Follows flag acts st
  | leaves {st : Stage} (h : Leaves st) : Follows flag [] st

inductive InPush : Task → Prop
  | executing {operations : List Operation} {message : String} {hash : CommitHash}
      {results : List OperationResult} {op : Operation} (h : operations[results.length]? = some op) :
      InPush (.executing operations message hash results)
  | snapshotting {p : Pending} : InPush (.snapshotting p)
  | persisting {p : Pending} : InPush (.persisting p)
  | done {o : Outcome} : InPush (.done o)

variable {a : Answer}

theorem inPush_resume {L L' : Ledger} {t t' : Task}
    (h : Git.resume L i t a = some (L', t')) (ht : t.writing = true) : InPush t' := by
  cases resume_spec h with
  | dispatched _ _ hop => exact .executing (by rwa [List.length_append, List.length_singleton])
  | executed _ _ _ => exact .snapshotting
  | appended => exact .persisting
  | cleared => exact .done
  | failed _ => exact .done
  | settled => cases ht

variable (cfg : PushConfig)

theorem perform_spec (A : Account) (i : Nat) (l : Loop) (op : Operation) :
    ∃ acts, Performs op acts (perform A i l op).2 ∧ Stretch A (perform A i l op).1 i acts := by
  cases op with
  | closePosition contract quantity =>
    cases quantity with
    | none => exact ⟨_, .executing, .note A i _⟩
    | some q =>
      simp only [perform]
      split
      · exact ⟨_, .failing, .refl A i⟩
      · exact ⟨_, .closing rfl, .refl A i⟩
  | placeOrder _ _ _ => exact ⟨_, .executing, .note A i _⟩
  | modifyOrder _ _ => exact ⟨_, .executing, .note A i _⟩
  | cancelOrder _ => exact ⟨_, .executing, .note A i _⟩
  | syncOrders => exact ⟨_, .failing, .refl A i⟩
  | observeExternalOrder _ _ => exact ⟨_, .failing, .refl A i⟩
  | reconcileBalance _ _ _ => exact ⟨_, .failing, .refl A i⟩

theorem dispatcher_spec (A : Account) (i : Nat) (l : Loop) (op : Operation) :
    ∃ acts, Dispatches A.automatedPushActive acts (dispatcher cfg A i l op).2 ∧
      Stretch A (dispatcher cfg A i l op).1 i acts := by
  simp only [dispatcher]
  split
  · exact ⟨_, .failing, .refl A i⟩
  split
  · rename_i hf
    exact ⟨_, .checking hf, .note A i _⟩
  rename_i hf
  obtain ⟨acts, hp, hs⟩ := perform_spec A i l op
  exact ⟨acts, .performs (by simpa using hf) hp, hs⟩

variable {task : Task}

theorem follow_spec (A : Account) (i : Nat) (ht : InPush task) :
    ∃ acts, Follows A.automatedPushActive acts (follow cfg A i task).2 ∧
      Stretch A (follow cfg A i task).1 i acts := by
  cases ht with
  | @executing operations message hash results op hop =>
    simp only [follow, hop, guardPipeline]
    split
    · exact ⟨_, .dispatches .guarding, .refl A i⟩
    · obtain ⟨acts, hd, hs⟩ := dispatcher_spec cfg A i ⟨operations, message, hash, results⟩ op
      exact ⟨acts, .dispatches hd, hs⟩
  | snapshotting => exact ⟨_, .leaves (.writing (.inl rfl)), .refl A i⟩
  | persisting => exact ⟨_, .leaves (.writing (.inr rfl)), .refl A i⟩
  | done => exact ⟨_, .leaves .settling, .refl A i⟩

variable {cfg}

variable {st : Stage}

theorem answer_spec (ht : task.writing = true) (h : answer cfg A i task a = some (A', st)) :
    ∃ acts, Follows A.automatedPushActive acts st ∧ Stretch A A' i acts := by
  obtain ⟨q, hq, he⟩ := Option.map_eq_some_iff.mp h
  obtain ⟨acts, hf, hs⟩ := follow_spec cfg { A with ledger := q.1 } i (inPush_resume hq ht)
  rw [he] at hf hs
  exact ⟨acts, hf, hs.ledger⟩

/-- After its loop the ledger's push dispatches no more. -/
theorem answer_leaves {p : Pending} (ht : task = .snapshotting p ∨ task = .persisting p)
    (h : answer cfg A i task a = some (A', st)) : Leaves st ∧ Stretch A A' i [] := by
  obtain ⟨⟨L, task'⟩, hq, he⟩ := Option.map_eq_some_iff.mp h
  have hr : Resumed A.ledger i task a L task' := resume_spec hq
  have hno : ∀ operations message hash results, task ≠ .executing operations message hash results := by
    rcases ht with rfl | rfl <;> simp
  cases hr with
  | dispatched _ _ _ => exact absurd rfl (hno _ _ _ _)
  | executed _ _ _ => exact absurd rfl (hno _ _ _ _)
  | appended =>
    cases he
    exact ⟨.writing (.inr rfl), by simp, rfl⟩
  | cleared =>
    cases he
    exact ⟨.settling, by simp, rfl⟩
  | failed _ =>
    cases he
    exact ⟨.settling, by simp, rfl⟩
  | settled => rcases ht with ht | ht <;> cases ht

/-- The account is neither read-only nor disabled nor offline. -/
def Open (cfg : PushConfig) (A : Account) : Prop :=
  cfg.readOnly = false ∧ A.disabled = false ∧ A.offline = false

def Passes (A : Account) (expected : String) : Prop :=
  (A.ledger.git.openWrite .push expected).isOk = true

/-- What `push` does once its automated checks are done. -/
inductive Admits (cfg : PushConfig) (A : Account) (expected : String) :
    List DispatchAct → Stage → Prop
  | refused {o : Outcome} (h : ¬Open cfg A) : Admits cfg A expected [] (.done o)
  | failed {o : Outcome} (h : Open cfg A) (hp : ¬Passes A expected) :
      Admits cfg A expected [] (.settling o)
  | entered {acts : List DispatchAct} {st : Stage} (h : Open cfg A) (hp : Passes A expected)
      (hf : A.ledger.git.inflightWrite = false) (hs : Follows A.automatedPushActive acts st) :
      Admits cfg A expected acts st

variable (cfg) in
theorem admit_spec (A : Account) (i : Nat) (expected : String) :
    ∃ acts, Admits cfg A expected acts (enterPush cfg A i expected).2 ∧
      Stretch A (enterPush cfg A i expected).1 i acts := by
  simp only [enterPush]
  split
  · rename_i hr
    exact ⟨_, .refused (by simp [Open, hr]), .refl A i⟩
  rename_i hr
  split
  · rename_i hd
    exact ⟨_, .refused (by simp [Open, hd]), .refl A i⟩
  rename_i hd
  split
  · rename_i ho
    exact ⟨_, .refused (by simp [Open, ho]), .refl A i⟩
  rename_i ho
  have hopen : Open cfg A := ⟨by simpa using hr, by simpa using hd, by simpa using ho⟩
  simp only [Git.start]
  cases hw : A.ledger.git.openWrite .push expected with
  | error e =>
    have hfail : ¬Passes A expected := by simp [Passes, hw, Except.isOk, Except.toBool]
    exact ⟨_, .failed hopen hfail, .refl A i⟩
  | ok q =>
    obtain ⟨g, operations, message, hash⟩ := q
    obtain ⟨hin, hne, _⟩ := openWrite_ok hw
    have ht : InPush (startWrite A.ledger i .push g operations message hash).2 := by
      cases operations with
      | nil => exact absurd rfl hne
      | cons op rest => exact .executing rfl
    obtain ⟨acts, hf, hs⟩ := follow_spec cfg
      { A with ledger := (startWrite A.ledger i .push g operations message hash).1 } i ht
    have hpass : Passes A expected := by simp [Passes, hw, Except.isOk, Except.toBool]
    exact ⟨acts, .entered hopen hpass hin hf, hs.ledger⟩

/-! ## At most one push is in the ledger -/

def Stage.dispatching : Stage → Bool
  | .guarding .. | .checking .. | .closing .. | .executing _ | .failing .. => true
  | _ => false

/-- Before the `finally`. -/
def Stage.settles : Stage → Bool
  | .settling _ => true
  | _ => false

def PushTask.writing (t : PushTask) : Bool :=
  match t.stage with
  | .writing task | .ledger task => task.writing
  | st => st.dispatching

theorem PushTask.writing_of_dispatching {t : PushTask} (h : t.stage.dispatching = true) :
    t.writing = true := by
  obtain ⟨automated, st⟩ := t
  cases st <;> first | rfl | cases h

abbrev busy (A : Account) : Bool := A.ledger.git.inflightWrite

variable (cfg)

theorem perform_dispatching (A : Account) (i : Nat) (l : Loop) (op : Operation) :
    busy (perform A i l op).1 = busy A ∧ (perform A i l op).2.dispatching = true := by
  unfold perform
  split
  · split <;> exact ⟨rfl, rfl⟩
  all_goals exact ⟨rfl, rfl⟩

theorem dispatcher_dispatching (A : Account) (i : Nat) (l : Loop) (op : Operation) :
    busy (dispatcher cfg A i l op).1 = busy A ∧ (dispatcher cfg A i l op).2.dispatching = true := by
  unfold dispatcher
  split
  · exact ⟨rfl, rfl⟩
  split
  · exact ⟨rfl, rfl⟩
  · exact perform_dispatching A i l op

theorem follow_writing (A : Account) (i : Nat) (task : Task) (automated : Bool) :
    busy (follow cfg A i task).1 = busy A ∧
      PushTask.writing ⟨automated, (follow cfg A i task).2⟩ = task.writing := by
  cases task with
  | executing operations message hash results =>
    simp only [follow]
    split
    · simp only [guardPipeline]
      split
      · exact ⟨rfl, rfl⟩
      · obtain ⟨hl, hd⟩ := dispatcher_dispatching cfg A i ⟨operations, message, hash, results⟩ _
        exact ⟨hl, PushTask.writing_of_dispatching hd⟩
    · exact ⟨rfl, rfl⟩
  | _ => exact ⟨rfl, rfl⟩

theorem admit_lock (A : Account) (i : Nat) (expected : String) (automated : Bool) :
    PushTask.writing ⟨automated, (enterPush cfg A i expected).2⟩ = true ∧ busy A = false ∧
        busy (enterPush cfg A i expected).1 = true ∨
      PushTask.writing ⟨automated, (enterPush cfg A i expected).2⟩ = false ∧
        busy (enterPush cfg A i expected).1 = busy A := by
  simp only [enterPush]
  split
  · exact .inr ⟨rfl, rfl⟩
  split
  · exact .inr ⟨rfl, rfl⟩
  split
  · exact .inr ⟨rfl, rfl⟩
  have hl := (gitLock cfg.toPlatform).start A.ledger i (.push expected)
  simp only [gitProg] at hl
  generalize Git.start cfg.toPlatform A.ledger i (.push expected) = q at hl ⊢
  obtain ⟨hledger, hw⟩ := follow_writing cfg { A with ledger := q.1 } i q.2 automated
  rw [hw, hledger]
  exact hl

variable {cfg}

theorem answer_owner (automated : Bool) (ht : task.writing = true) (hb : busy A = true)
    (h : answer cfg A i task a = some (A', st)) :
    busy A' = PushTask.writing ⟨automated, st⟩ := by
  obtain ⟨q, hq, he⟩ := Option.map_eq_some_iff.mp h
  have hl := (gitLock cfg.toPlatform).owner A.ledger i task a q.1 q.2 ht hb hq
  obtain ⟨hledger, hw⟩ := follow_writing cfg { A with ledger := q.1 } i q.2 automated
  rw [he] at hledger hw
  change busy A' = _ at hledger
  rw [hw, hledger]
  exact hl

theorem answer_idle
    (automated : Bool) (ht : task.writing = false) (h : answer cfg A i task a = some (A', st)) :
    PushTask.writing ⟨automated, st⟩ = true ∧ busy A = false ∧ busy A' = true ∨
      PushTask.writing ⟨automated, st⟩ = false ∧ busy A' = busy A := by
  obtain ⟨q, hq, he⟩ := Option.map_eq_some_iff.mp h
  have hl := (gitLock cfg.toPlatform).idle A.ledger i task a q.1 q.2 ht hq
  obtain ⟨hledger, hw⟩ := follow_writing cfg { A with ledger := q.1 } i q.2 automated
  rw [he] at hledger hw
  change busy A' = _ at hledger
  rw [hw, hledger]
  exact hl

variable (cfg) in
/-- Everything a later stretch of a call can do, by the stage it starts in and
the answer it gets. -/
inductive Advanced (A : Account) (i : Nat) (automated : Bool) :
    Stage → PushAnswer → Account → Stage → Prop
  /-- The call settled. -/
  | settled {st : Stage} {r : PushAnswer} {o : Outcome}
      (hst : (∃ e, st = .stopping e) ∨ ∃ o', st = .recordingFailure o') :
      Advanced A i automated st r A (.done o)
  /-- An automated push got past the emergency stop. -/
  | admitted {e : String} {A' : Account} {st' : Stage}
      (h : enterPush cfg { A with automatedPushActive := true } i e = (A', st')) :
      Advanced A i automated (.stopping e) (.stop false) A' st'
  | dispatched {l : Loop} {op : Operation} {r : PushAnswer} {A' : Account} {st' : Stage}
      (h : dispatcher cfg A i l op = (A', st')) : Advanced A i automated (.guarding l op) r A' st'
  | checked {l : Loop} {op : Operation} {r : PushAnswer} {A' : Account} {st' : Stage}
      (h : perform (A.note i (.passed op)) i l op = (A', st')) :
      Advanced A i automated (.checking l op) r A' st'
  | closed {l : Loop} {contract : Contract} {quantity : Decimal} {r : PushAnswer} :
      Advanced A i automated (.closing l contract quantity) r
        (A.note i (.execute (.closePosition contract (some quantity)))) (.executing l)
  | answered {st : Stage} {l : Loop} {r : PushAnswer} {a : Answer} {A' : Account} {st' : Stage}
      (hst : st.dispatching = true) (h : answer cfg A i l.task a = some (A', st')) :
      Advanced A i automated st r A' st'
  | wrote {task : Task} {r : PushAnswer} {a : Answer} {A' : Account} {st' : Stage}
      (h : answer cfg A i task a = some (A', st')) : Advanced A i automated (.writing task) r A' st'
  /-- The `finally` ran. -/
  | finished {o : Outcome} {r : PushAnswer} {A' : Account} {st' : Stage}
      (h : settle A automated o = (A', st')) : Advanced A i automated (.settling o) r A' st'
  | ledger {task task' : Task} {r : PushAnswer} {a : Answer} {L : Ledger}
      (h : Git.resume A.ledger i task a = some (L, task')) :
      Advanced A i automated (.ledger task) r { A with ledger := L } (.ledger task')

variable {automated : Bool}

theorem advance_spec {st st' : Stage}
    {a : PushAnswer} (h : advance cfg A i automated st a = some (A', st')) :
    Advanced cfg A i automated st a A' st' := by
  unfold advance at h
  split at h
  all_goals try (cases h; done)
  · cases h
    exact .settled (.inl ⟨_, rfl⟩)
  · exact .admitted (Option.some.inj h)
  · cases h
    exact .settled (.inl ⟨_, rfl⟩)
  · exact .dispatched (Option.some.inj h)
  · exact .answered rfl h
  · exact .answered rfl h
  · exact .checked (Option.some.inj h)
  · exact .answered rfl h
  · split at h
    · exact .answered rfl h
    · cases h
      exact .closed
  · exact .answered rfl h
  · exact .answered rfl h
  · exact .answered rfl h
  · exact .wrote h
  · exact .finished (Option.some.inj h)
  · cases h
    exact .settled (.inr ⟨_, rfl⟩)
  · cases h
    exact .settled (.inr ⟨_, rfl⟩)
  · obtain ⟨q, hq, he⟩ := Option.map_eq_some_iff.mp h
    cases he
    exact .ledger hq

/-- The `finally` clears the flag and leaves the ledger. -/
theorem settle_spec {o : Outcome} (h : settle A automated o = (A', st)) :
    A' = { A with automatedPushActive := false } ∧ (st = .done o ∨ st = .recordingFailure o) := by
  unfold settle at h
  split at h
  · split at h <;> cases h
    · exact ⟨rfl, .inr rfl⟩
    · exact ⟨rfl, .inl rfl⟩
  · cases h
    exact ⟨rfl, .inl rfl⟩

theorem writing_of_settled {o : Outcome}
    (h : st = .done o ∨ st = .recordingFailure o) : PushTask.writing ⟨automated, st⟩ = false := by
  rcases h with rfl | rfl <;> rfl

theorem resume_eq {t t' : PushTask} {a : PushAnswer} (h : resume cfg A i t a = some (A', t')) :
    ∃ st', t' = ⟨t.automated, st'⟩ ∧ Advanced cfg A i t.automated t.stage a A' st' := by
  obtain ⟨q, hq, he⟩ := Option.map_eq_some_iff.mp h
  cases he
  exact ⟨_, rfl, advance_spec hq⟩

theorem pushLock : Lock (pushProg cfg) busy PushTask.writing where
  start A i c := by
    cases c with
    | push expected automated =>
      cases automated with
      | false => exact admit_lock cfg A i expected false
      | true =>
        refine .inr ?_
        simp only [pushProg, start]
        split
        · exact ⟨rfl, rfl⟩
        · split <;> exact ⟨rfl, rfl⟩
    | ledger c => exact (gitLock cfg.toPlatform).start A.ledger i c
    | health disabled offline => exact .inr ⟨rfl, rfl⟩
  idle A i t a A' t' ht h := by
    obtain ⟨automated, st⟩ := t
    obtain ⟨st', rfl, hs⟩ := resume_eq h
    have hno : st.dispatching = false := by
      by_contra hd
      rw [PushTask.writing_of_dispatching (by simpa using hd)] at ht
      cases ht
    cases hs with
    | settled hst => exact .inr ⟨rfl, rfl⟩
    | @admitted e _ _ he =>
      have hl := admit_lock cfg { A with automatedPushActive := true } i e automated
      rw [he] at hl
      exact hl
    | dispatched _ => cases hno
    | checked _ => cases hno
    | closed => cases hno
    | answered hst _ =>
      rw [hno] at hst
      cases hst
    | wrote he => exact answer_idle automated ht he
    | finished he =>
      obtain ⟨rfl, hst⟩ := settle_spec he
      exact .inr ⟨writing_of_settled hst, rfl⟩
    | ledger hq => exact (gitLock cfg.toPlatform).idle A.ledger i _ _ _ _ ht hq
  owner A i t a A' t' ht hb h := by
    obtain ⟨automated, st⟩ := t
    obtain ⟨st', rfl, hs⟩ := resume_eq h
    cases hs with
    | settled hst => rcases hst with ⟨_, rfl⟩ | ⟨_, rfl⟩ <;> cases ht
    | admitted _ => cases ht
    | @dispatched l op _ _ _ he =>
      obtain ⟨hl, hd⟩ := dispatcher_dispatching cfg A i l op
      rw [he] at hl hd
      exact (hl.trans hb).trans (PushTask.writing_of_dispatching hd).symm
    | @checked l op _ _ _ he =>
      obtain ⟨hl, hd⟩ := perform_dispatching (A.note i (.passed op)) i l op
      rw [he] at hl hd
      exact (hl.trans hb).trans (PushTask.writing_of_dispatching hd).symm
    | closed => exact hb
    | answered hst he => exact answer_owner automated rfl hb he
    | wrote he => exact answer_owner automated ht hb he
    | finished _ => cases ht
    | ledger hq => exact (gitLock cfg.toPlatform).owner A.ledger i _ _ _ _ ht hb hq

/-! ## The invariant -/

structure Fits (automated : Bool) (acts : List DispatchAct) (st : Stage) : Prop where
  vetted : automated = true → Vetted acts
  unchecked : automated = false → Unchecked acts
  closing : automated = true → ∀ l contract quantity, st = .closing l contract quantity →
    ∃ l₀, acts = l₀ ++ [.passed (.closePosition contract (some quantity))]
  checking : ∀ l op, st = .checking l op → automated = true
  stopping : ∀ e, st = .stopping e → automated = true
  writing : ∀ task, st = .writing task → ∃ p, task = .snapshotting p ∨ task = .persisting p

def Stage.plain : Stage → Bool
  | .closing .. | .checking .. | .stopping _ | .writing _ => false
  | _ => true

theorem Fits.of_plain
    (hv : automated = true → Vetted acts) (hu : automated = false → Unchecked acts)
    (hst : st.plain = true) : Fits automated acts st where
  vetted := hv
  unchecked := hu
  closing _ _ _ _ he := by
    subst he
    cases hst
  checking _ _ he := by
    subst he
    cases hst
  stopping _ he := by
    subst he
    cases hst
  writing _ he := by
    subst he
    cases hst

theorem Fits.plain {st st' : Stage}
    (h : Fits automated acts st) (hst : st'.plain = true) : Fits automated (acts ++ []) st' := by
  rw [List.append_nil]
  exact .of_plain h.vetted h.unchecked hst

theorem Performs.fits {acts acts' : List DispatchAct} {op : Operation} (hp : Performs op acts' st)
    (hv : automated = true → Vetted acts ∧ ∃ l, acts = l ++ [.passed op])
    (hu : automated = false → Unchecked acts) : Fits automated (acts ++ acts') st := by
  cases hp with
  | executing =>
    refine .of_plain ?_ ?_ rfl
    · intro ha
      refine (hv ha).1.concat ?_
      intro op' he
      cases he
      exact (hv ha).2
    · exact fun ha ↦ (hu ha).concat (by simp)
  | closing h =>
    subst h
    rw [List.append_nil]
    refine ⟨fun ha ↦ (hv ha).1, hu, ?_, by simp, by simp, by simp⟩
    intro ha l contract quantity he
    cases he
    exact (hv ha).2
  | failing =>
    rw [List.append_nil]
    exact .of_plain (fun ha ↦ (hv ha).1) hu rfl

theorem Dispatches.fits {acts acts' : List DispatchAct} {st st' : Stage}
    (hd : Dispatches automated acts' st') (h : Fits automated acts st) :
    Fits automated (acts ++ acts') st' := by
  cases hd with
  | guarding => exact h.plain rfl
  | failing => exact h.plain rfl
  | checking ha =>
    subst ha
    exact ⟨fun ha ↦ (h.vetted ha).concat (by simp), by simp, by simp, fun _ _ _ ↦ rfl, by simp,
      by simp⟩
  | performs ha hp =>
    subst ha
    exact hp.fits (by simp) h.unchecked

theorem Leaves.fits {st st' : Stage}
    (hl : Leaves st') (h : Fits automated acts st) : Fits automated (acts ++ []) st' := by
  cases hl with
  | @writing task p hp =>
    rw [List.append_nil]
    refine ⟨h.vetted, h.unchecked, by simp, by simp, by simp, ?_⟩
    intro task' he
    cases he
    exact ⟨p, hp⟩
  | settling => exact h.plain rfl

theorem Follows.fits {acts acts' : List DispatchAct} {st st' : Stage}
    (hf : Follows automated acts' st') (h : Fits automated acts st) :
    Fits automated (acts ++ acts') st' := by
  cases hf with
  | dispatches hd => exact hd.fits h
  | leaves hl => exact hl.fits h

/-- The invariant of the account with its calls. -/
structure Enveloped (W : PushWorld) : Prop where
  /-- The history mentions only calls that were made. -/
  below : ∀ q ∈ W.shared.history, q.1 < W.tasks.length
  fits : ∀ (i : Nat) t, W.tasks[i]? = some t → Fits t.automated (actsOf i W.shared.history) t.stage
  flag : ∀ (i : Nat) t, W.tasks[i]? = some t → t.stage.dispatching = true →
    W.shared.automatedPushActive = t.automated
  /-- While an automated push dispatches, no `finally` is about to run. -/
  calm : ∀ (i j : Nat) t t', W.tasks[i]? = some t → W.tasks[j]? = some t' →
    t.stage.dispatching = true → t.automated = true → t'.stage.settles = false

theorem Stage.not_both (h : st.dispatching = true) : st.settles = false := by
  cases st <;> first | rfl | cases h

variable {W : PushWorld}

/-- Call number `i` moved to `t'`, adding `acts` to the history: what has to be
checked of the flag. -/
theorem Enveloped.move (h : Enveloped W) {A' : Account} {tasks' : List PushTask} (t' : PushTask)
    (hlen : W.tasks.length ≤ tasks'.length) (hi : i < tasks'.length)
    (htask : ∀ (j : Nat) t, tasks'[j]? = some t → j = i ∧ t = t' ∨ j ≠ i ∧ W.tasks[j]? = some t)
    (hhist : A'.history = W.shared.history ++ acts.map (Prod.mk i))
    (hfits : Fits t'.automated (actsOf i W.shared.history ++ acts) t'.stage)
    (hself : t'.stage.dispatching = true → A'.automatedPushActive = t'.automated)
    (hother : ∀ (j : Nat) t, j ≠ i → W.tasks[j]? = some t → t.stage.dispatching = true →
      A'.automatedPushActive = t.automated)
    (hcalm : t'.stage.dispatching = true → t'.automated = true →
      ∀ (j : Nat) t, j ≠ i → W.tasks[j]? = some t → t.stage.settles = false)
    (hcalm' : t'.stage.settles = true →
      ∀ (j : Nat) t, j ≠ i → W.tasks[j]? = some t → t.stage.dispatching = true →
        t.automated = false) : Enveloped ⟨A', tasks'⟩ where
  below q hq := by
    rw [hhist, List.mem_append] at hq
    rcases hq with hq | hq
    · exact lt_of_lt_of_le (h.below q hq) hlen
    · obtain ⟨a, _, rfl⟩ := List.mem_map.mp hq
      exact hi
  fits j t hj := by
    rw [hhist, actsOf_append]
    rcases htask j t hj with ⟨rfl, rfl⟩ | ⟨hne, hj⟩
    · rw [actsOf_self]
      exact hfits
    · rw [actsOf_ne (Ne.symm hne), List.append_nil]
      exact h.fits j t hj
  flag j t hj hd := by
    rcases htask j t hj with ⟨rfl, rfl⟩ | ⟨hne, hj⟩
    · exact hself hd
    · exact hother j t hne hj hd
  calm j k t u hj hk hd ha := by
    rcases htask j t hj with ⟨rfl, rfl⟩ | ⟨hne, hj⟩
    · rcases htask k u hk with ⟨rfl, rfl⟩ | ⟨hne', hk⟩
      · exact Stage.not_both hd
      · exact hcalm hd ha k u hne' hk
    rcases htask k u hk with ⟨rfl, rfl⟩ | ⟨_, hk⟩
    · by_contra hs
      have := hcalm' (by simpa using hs) j t hne hj hd
      rw [ha] at this
      cases this
    · exact h.calm j k t u hj hk hd ha

/-! ## The condition and the theorem -/

variable (cfg) in
/-- A step that keeps pushes apart.  A manual push that gets past the account's
checks finds the flag clear, or is refused by the ledger while no other push is
dispatching.  An automated push sets the flag while no other push is
dispatching, nor, if it will get into the ledger, about to run its `finally`. -/
def apartStep (W : PushWorld) : PushEvent → Prop
  | .call (.push expected false) =>
    Open cfg W.shared → W.shared.automatedPushActive = true →
      ¬Passes W.shared expected ∧ ∀ t ∈ W.tasks, t.stage.dispatching = false
  | .resume i (.stop false) =>
    ∀ automated expected, W.tasks[i]? = some ⟨automated, .stopping expected⟩ →
      (∀ t ∈ W.tasks, t.stage.dispatching = false) ∧
        (Open cfg W.shared → Passes W.shared expected →
          ∀ t ∈ W.tasks, t.stage.settles = false)
  | _ => True

theorem Fits.nil (hst : st.plain = true) : Fits automated [] st :=
  .of_plain (fun _ ↦ vetted_nil) (fun _ ↦ unchecked_nil) hst

theorem Enveloped.call_manual (h : Enveloped W) {expected : String} {A' : Account}
    (hok : apartStep cfg W (.call (.push expected false)))
    (ha : Admits cfg W.shared expected acts st)
    (hs : Stretch W.shared A' W.tasks.length acts) :
    Enveloped ⟨A', W.tasks ++ [⟨false, st⟩]⟩ := by
  have hnil := actsOf_eq_nil h.below
  have hopen : st.dispatching = true ∨ st.settles = true → Open cfg W.shared := by
    cases ha with
    | refused _ => simp [Stage.dispatching, Stage.settles]
    | failed ho _ => exact fun _ ↦ ho
    | entered ho _ _ _ => exact fun _ ↦ ho
  refine h.move ⟨false, st⟩ (by simp) (by simp) ?_ hs.history ?_ ?_ ?_ (by simp) ?_
  · intro j t hj
    rcases World.task_append hj with hj | ⟨rfl, rfl⟩
    · exact .inr ⟨Nat.ne_of_lt (List.getElem?_eq_some_iff.mp hj).1, hj⟩
    · exact .inl ⟨rfl, rfl⟩
  · rw [hnil]
    cases ha with
    | refused _ => exact .nil rfl
    | failed _ _ => exact .nil rfl
    | entered ho hp _ hf =>
      have hclear : W.shared.automatedPushActive = false := by
        by_contra hc
        exact (hok ho (by simpa using hc)).1 hp
      rw [hclear] at hf
      have h₀ : Fits false [] (.done .roundSet) := .nil rfl
      exact hf.fits h₀
  · intro hd
    rw [hs.flag]
    cases ha with
    | refused _ => cases hd
    | failed _ _ => cases hd
    | entered ho hp _ _ =>
      by_contra hc
      exact (hok ho (by simpa using hc)).1 hp
  · intro j t _ hj hd
    rw [hs.flag]
    exact h.flag j t hj hd
  · intro hset j t _ hj hd
    rw [← h.flag j t hj hd]
    by_contra hc
    have hno := (hok (hopen (.inr hset)) (by simpa using hc)).2 t (List.mem_of_getElem? hj)
    rw [hd] at hno
    cases hno

theorem Enveloped.resume_automated (h : Enveloped W) {expected : String} {A' : Account}
    (hi : W.tasks[i]? = some ⟨true, .stopping expected⟩)
    (hok : apartStep cfg W (.resume i (.stop false)))
    (ha : Admits cfg { W.shared with automatedPushActive := true } expected acts st)
    (hs : Stretch { W.shared with automatedPushActive := true } A' i acts) :
    Enveloped ⟨A', W.tasks.set i ⟨true, st⟩⟩ := by
  obtain ⟨hquiet, hcalm⟩ := hok true expected hi
  refine h.move ⟨true, st⟩ (by simp) (by simpa using (List.getElem?_eq_some_iff.mp hi).1) ?_
    hs.history ?_ ?_ ?_ ?_ ?_
  · intro j t hj
    exact World.task_set hj
  · have hf := h.fits i _ hi
    cases ha with
    | refused _ => exact hf.plain rfl
    | failed _ _ => exact hf.plain rfl
    | entered _ _ _ hfol => exact hfol.fits hf
  · exact fun _ ↦ hs.flag
  · intro j t _ hj hd
    rw [hquiet t (List.mem_of_getElem? hj)] at hd
    cases hd
  · intro hd _ j t _ hj
    cases ha with
    | refused _ => cases hd
    | failed _ _ => cases hd
    | entered ho hp _ _ => exact hcalm ho hp t (List.mem_of_getElem? hj)
  · intro _ j t _ hj hd
    rw [hquiet t (List.mem_of_getElem? hj)] at hd
    cases hd

/-- A call that moves on without touching the flag keeps the invariant, as long
as it dispatches only if it did before and reaches its `finally` only from within
the ledger. -/
theorem Enveloped.resume_same (h : Enveloped W)
    (hx : Exclusive busy PushTask.writing W) {t : PushTask} {A' : Account}
    {st' : Stage} (hi : W.tasks[i]? = some t)
    (hs : Stretch W.shared A' i acts)
    (hfits : Fits t.automated (actsOf i W.shared.history ++ acts) st')
    (hd : st'.dispatching = true → t.stage.dispatching = true)
    (hset : st'.settles = true → t.writing = true) :
    Enveloped ⟨A', W.tasks.set i ⟨t.automated, st'⟩⟩ := by
  refine h.move ⟨t.automated, st'⟩ (by simp)
    (by simpa using (List.getElem?_eq_some_iff.mp hi).1) ?_ hs.history hfits ?_ ?_ ?_ ?_
  · intro j u hj
    exact World.task_set hj
  · intro hd'
    rw [hs.flag]
    exact h.flag i t hi (hd hd')
  · intro j u _ hj hdj
    rw [hs.flag]
    exact h.flag j u hj hdj
  · intro hd' ha j u _ hj
    exact h.calm i j t u hi hj (hd hd') ha
  · intro hs' j u hne hj hdj
    exact absurd (hx.unique j i u t hj hi (PushTask.writing_of_dispatching hdj) (hset hs')) hne

theorem Leaves.not_dispatching (h : Leaves st) : st.dispatching = false := by
  cases h <;> rfl

theorem Enveloped.resume (h : Enveloped W)
    (hx : Exclusive busy PushTask.writing W) {t : PushTask} {a : PushAnswer}
    {A' : Account} {st' : Stage} (hi : W.tasks[i]? = some t)
    (hok : apartStep cfg W (.resume i a))
    (hadv : advance cfg W.shared i t.automated t.stage a = some (A', st')) :
    Enveloped ⟨A', W.tasks.set i ⟨t.automated, st'⟩⟩ := by
  obtain ⟨automated, st⟩ := t
  have hf := h.fits i _ hi
  -- the flag is what the dispatching call says it is
  have hflag : st.dispatching = true → W.shared.automatedPushActive = automated :=
    fun hd ↦ h.flag i _ hi hd
  cases advance_spec hadv with
  | @settled st r o _ =>
    have hst : (Stage.done o).plain = true := rfl
    exact h.resume_same hx hi (.refl _ _) (hf.plain hst) (fun hd ↦ by cases hd)
      (fun hs ↦ by cases hs)
  | @admitted e _ _ he =>
    obtain rfl : automated = true := hf.stopping e rfl
    obtain ⟨acts, ha, hs⟩ := admit_spec cfg { W.shared with automatedPushActive := true } i e
    rw [he] at ha hs
    exact h.resume_automated hi hok ha hs
  | @dispatched l op _ _ _ he =>
    obtain ⟨acts, hd, hs⟩ := dispatcher_spec cfg W.shared i l op
    rw [he] at hd hs
    rw [hflag rfl] at hd
    exact h.resume_same hx hi hs (hd.fits hf) (fun _ ↦ rfl) (fun _ ↦ rfl)
  | @checked l op _ _ _ he =>
    obtain rfl : automated = true := hf.checking l op rfl
    obtain ⟨acts, hp, hs⟩ := perform_spec (W.shared.note i (.passed op)) i l op
    rw [he] at hp hs
    have hs' : Stretch W.shared A' i (.passed op :: acts) := by
      refine ⟨?_, hs.flag⟩
      rw [hs.history]
      simp [Account.note]
    refine h.resume_same hx hi hs' ?_ (fun _ ↦ rfl) (fun _ ↦ rfl)
    have hpass : Fits true ((actsOf i W.shared.history ++ [.passed op]) ++ acts) st' :=
      hp.fits (fun _ ↦ ⟨(hf.vetted rfl).concat (by simp), ⟨_, rfl⟩⟩) (by simp)
    rwa [List.append_assoc, List.singleton_append] at hpass
  | @closed l contract quantity _ =>
    refine h.resume_same hx hi (.note _ _ _) (.of_plain ?_ ?_ rfl) (fun _ ↦ rfl) (fun _ ↦ rfl)
    · intro ha
      refine (hf.vetted ha).concat ?_
      intro op he
      cases he
      exact hf.closing ha l contract quantity rfl
    · exact fun ha ↦ (hf.unchecked ha).concat (by simp)
  | @answered _ l _ _ _ _ hst he =>
    obtain ⟨acts, hfol, hs⟩ := answer_spec rfl he
    rw [hflag hst] at hfol
    exact h.resume_same hx hi hs (hfol.fits hf) (fun _ ↦ hst)
      (fun _ ↦ PushTask.writing_of_dispatching hst)
  | @wrote task _ _ _ _ he =>
    obtain ⟨p, hp⟩ := hf.writing task rfl
    obtain ⟨hl, hs⟩ := answer_leaves hp he
    refine h.resume_same hx hi hs (hl.fits hf) (fun hd ↦ ?_) (fun _ ↦ ?_)
    · rw [hl.not_dispatching] at hd
      cases hd
    · rcases hp with rfl | rfl <;> rfl
  | @finished o _ _ _ he =>
    obtain ⟨rfl, hst⟩ := settle_spec he
    have hplain : st'.plain = true ∧ st'.dispatching = false ∧ st'.settles = false := by
      rcases hst with rfl | rfl <;> exact ⟨rfl, rfl, rfl⟩
    refine h.move ⟨automated, st'⟩ (by simp)
      (by simpa using (List.getElem?_eq_some_iff.mp hi).1) ?_ (List.append_nil _).symm
      (hf.plain hplain.1) ?_ ?_ ?_ ?_
    · intro j t hj
      exact World.task_set hj
    · intro hd
      rw [hplain.2.1] at hd
      cases hd
    · -- whoever dispatches now is manual: this `finally` was about to run
      intro j t _ hj hd
      by_contra hc
      have hquiet := h.calm j i t _ hj hi hd (by simpa using Ne.symm hc)
      cases hquiet
    · intro hd
      rw [hplain.2.1] at hd
      cases hd
    · intro hs
      rw [hplain.2.2] at hs
      cases hs
  | ledger hq =>
    exact h.resume_same hx hi ⟨(List.append_nil _).symm, rfl⟩ (hf.plain rfl)
      (fun hd ↦ by cases hd) (fun hs ↦ by cases hs)

theorem Enveloped.call (h : Enveloped W) {c : AccountCall} (hok : apartStep cfg W (.call c)) :
    Enveloped ⟨(start cfg W.shared W.tasks.length c).1,
      W.tasks ++ [(start cfg W.shared W.tasks.length c).2]⟩ := by
  -- a call that leaves flag and history alone, and does not enter the ledger's push
  have hsame : ∀ (A' : Account) (t' : PushTask), Stretch W.shared A' W.tasks.length [] →
      Fits t'.automated [] t'.stage → t'.stage.dispatching = false → t'.stage.settles = false →
        Enveloped ⟨A', W.tasks ++ [t']⟩ := by
    intro A' t' hs hf hd hset
    refine h.move t' (by simp) (by simp) ?_ hs.history ?_ ?_ ?_ ?_ ?_
    · intro j t hj
      rcases World.task_append hj with hj | ⟨rfl, rfl⟩
      · exact .inr ⟨Nat.ne_of_lt (List.getElem?_eq_some_iff.mp hj).1, hj⟩
      · exact .inl ⟨rfl, rfl⟩
    · rwa [actsOf_eq_nil h.below, List.append_nil]
    · intro hd'
      rw [hd] at hd'
      cases hd'
    · intro j t _ hj hd'
      rw [hs.flag]
      exact h.flag j t hj hd'
    · intro hd'
      rw [hd] at hd'
      cases hd'
    · intro hset'
      rw [hset] at hset'
      cases hset'
  cases c with
  | push expected automated =>
    cases automated with
    | false =>
      obtain ⟨acts, ha, hs⟩ := admit_spec cfg W.shared W.tasks.length expected
      exact h.call_manual hok ha hs
    | true =>
      simp only [start]
      split
      · exact hsame _ _ (.refl _ _) (.nil rfl) rfl rfl
      split
      · exact hsame _ _ (.refl _ _) (.nil rfl) rfl rfl
      refine hsame _ _ (.refl _ _) ?_ rfl rfl
      exact ⟨fun _ ↦ vetted_nil, fun _ ↦ unchecked_nil, by simp, by simp, fun _ _ ↦ rfl,
        by simp⟩
  | ledger c => exact hsame _ _ ⟨(List.append_nil _).symm, rfl⟩ (.nil rfl) rfl rfl
  | health disabled offline =>
    exact hsame _ _ ⟨(List.append_nil _).symm, rfl⟩ (.nil rfl) rfl rfl

/-- **The risk envelope, where pushes are kept apart.** -/
theorem risk_envelope {g : TradingGit} (hg : Idle g) {W : PushWorld}
    (h : Reach (pushProg cfg).step (apartStep cfg) (PushWorld.initial g) W) : RiskEnvelope W := by
  have hE : Enveloped W := by
    refine h.invariant_of_reach ?_ ?_
    · exact ⟨by simp [PushWorld.initial], by simp [PushWorld.initial], by simp [PushWorld.initial],
        by simp [PushWorld.initial]⟩
    intro W e W' hr hE hok hst
    have hx : Exclusive busy PushTask.writing W := pushLock.exclusive hg.flag hr
    cases e with
    | call c =>
      cases Prog.step_call hst
      exact hE.call hok
    | resume i a =>
      obtain ⟨t, A', t', hi, hr, rfl⟩ := Prog.step_resume hst
      obtain ⟨q, hq, he⟩ := Option.map_eq_some_iff.mp hr
      cases he
      exact hE.resume hx hi hok hq
  exact ⟨fun i t hi ↦ (hE.fits i t hi).vetted, fun i t hi ↦ (hE.fits i t hi).unchecked⟩

/-! ## Two pushes of one account -/

def paperConfig : PushConfig where
  generateCommitHash _ := "0a1b2c3d"
  toFixed d := toString d
  label := "paper"
  keyless := false
  readOnly := false
  autoTrading := true
  automatedExecutionIsPaper := true
  guarded := false
  getNativeKey contract := contract.symbol
  decimalText d := toString d

def twoCancels : List PushEvent := [
  .call (.ledger ⟨.add (.cancelOrder "1"), by simp⟩),
  .call (.ledger ⟨.add (.cancelOrder "2"), by simp⟩),
  .call (.ledger ⟨.commit "cancel both" 1, by simp⟩),
  .call (.push "0a1b2c3d" true)]

/-- An automated push that is alone checks and executes both. -/
theorem risk_envelope_alone : ∃ W : PushWorld,
    Reach (pushProg paperConfig).step (apartStep paperConfig) (PushWorld.initial {}) W ∧
      W.shared.history = [(3, .check (.cancelOrder "1")), (3, .passed (.cancelOrder "1")),
        (3, .execute (.cancelOrder "1")), (3, .check (.cancelOrder "2")),
        (3, .passed (.cancelOrder "2")), (3, .execute (.cancelOrder "2"))] ∧
      RiskEnvelope W := by
  have hstart : Reach (pushProg paperConfig).step (apartStep paperConfig)
      (PushWorld.initial {}) _ :=
    .of_exec_of_forall twoCancels rfl (by simp [twoCancels, apartStep])
  have hgo : Reach (pushProg paperConfig).step (apartStep paperConfig) (PushWorld.initial {}) _ :=
    hstart.tail (e := Event.resume 3 (.stop false))
      (fun _ _ _ ↦ ⟨by decide, fun _ _ ↦ by decide⟩) rfl
  have hr := hgo.trans (.of_exec_of_forall
    [.resume 3 .settled, .resume 3 (.git (.reply .notObject)), .resume 3 .settled] rfl
    (by simp [apartStep]))
  exact ⟨_, hr, rfl, risk_envelope idle_new hr⟩

/-- **A second push clears the flag of the first.**  While the automated push
waits for the broker, a manual push is refused by the ledger and its `finally`
clears the flag: the second cancellation is executed without a check. -/
theorem not_risk_envelope : ¬∀ (cfg : PushConfig) (W : PushWorld),
    Reach (pushProg cfg).step anyStep (PushWorld.initial {}) W → RiskEnvelope W := by
  intro hall
  have hr : Reach (pushProg paperConfig).step anyStep (PushWorld.initial {}) _ :=
    .of_exec (twoCancels ++ [.resume 3 (.stop false), .resume 3 .settled,
      .call (.push "0a1b2c3d" false), .resume 4 .settled,
      .resume 3 (.git (.reply .notObject))]) rfl
  have hv := (hall paperConfig _ hr).automated 3 _ rfl rfl
  obtain ⟨l, hl⟩ := hv [.check (.cancelOrder "1"), .passed (.cancelOrder "1"),
    .execute (.cancelOrder "1")] (.cancelOrder "2") [] rfl
  -- what came just before was an execution, not a passed check
  have hlast := congrArg List.getLast? hl
  rw [List.getLast?_concat] at hlast
  cases hlast

end OpenAlice.Trading.Push
