import OpenAlice.Trading.Account.WalletStaging
import OpenAlice.Trading.Git.Logged

/-!
# The wallet stamp

`UnifiedTradingAccount.commit` writes into the message of a commit the sub-accounts that the staged
operations go to: the schema of the ledger has no other place for them.  They are kept in a list
beside the ledger, which a staging method adds to before its operation is staged, and which
`commit` and `reject` empty.

The methods wrap those of the ledger, so that a run interleaves like a run of `gitProg`.  The state
carries what was resolved for each staged operation, and what each push appended; no step reads it.
-/

namespace OpenAlice.Trading.SubAccounts

open OpenAlice.Run Git Brokers

/-- A commit that a push appended, what had been resolved for the operations that were staged, and
the message that had been asked for. -/
structure Pushed where
  commit : GitCommit
  staged : List (Operation × Option String)
  spoken : String

/-- The ledger, and the list beside it. -/
structure Wallet where
  ledger : Ledger
  stagedSubAccountIds : List String := []
  staged : List (Operation × Option String) := []
  spoken : String := ""
  pushed : List Pushed := []

def resolvedIds (staged : List (Operation × Option String)) : List String :=
  staged.filterMap Prod.snd

def stampSubAccount (stagedSubAccountIds : List String) (message : String) : String :=
  match stagedSubAccountIds.eraseDups with
  | [] => message
  | ids => message ++ " [sub:" ++ ",".intercalate ids ++ "]"

/-- **The tag of a pushed commit** lists the distinct sub-accounts resolved for its operations. -/
structure Pushed.Exact (p : Pushed) : Prop where
  operations : p.commit.operations = p.staged.map Prod.fst
  message : p.commit.message = stampSubAccount (resolvedIds p.staged) p.spoken

abbrev LedgerCall := { c : Call // c.isClient = false }

inductive WalletCall where
  | stage (call : StageCall)
  | commit (message : String) (now : Timestamp)
  /-- `push`, with what the checks of the account throw, if it is read-only, disabled or offline. -/
  | push (refusal : Option String) (expectedPendingHash : String)
  | reject (reason : Option String) (expectedPendingHash : String)
  /-- What a sync or a reconciliation records. -/
  | ledger (call : LedgerCall)

variable {Request : Type} (pf : Platform) (dec : Decimals) (acct : Account)
  (broker : Adapter Request)

def start (w : Wallet) (i : Nat) : WalletCall → Wallet × Task
  | .stage call =>
    let prepared := call.prepare dec acct broker
    let w := { w with stagedSubAccountIds := w.stagedSubAccountIds ++ prepared.1.toList }
    match prepared.2 with
    | .error text => (w, .done (.threw (.error text)))
    | .ok op =>
      let staged :=
        match w.ledger.git.add op with
        | .ok _ => w.staged ++ [(op, prepared.1)]
        | .error _ => w.staged
      ({ w with ledger := (Git.start pf w.ledger i (.add op)).1, staged },
        (Git.start pf w.ledger i (.add op)).2)
  | .commit message now =>
    let stamped := stampSubAccount w.stagedSubAccountIds message
    let cleared :=
      match w.ledger.git.commit pf stamped now with
      | .ok _ => { w with stagedSubAccountIds := [], spoken := message }
      | .error _ => w
    ({ cleared with ledger := (Git.start pf w.ledger i (.commit stamped now)).1 },
      (Git.start pf w.ledger i (.commit stamped now)).2)
  | .push (some text) _ => (w, .done (.threw (.error text)))
  | .push none expectedPendingHash =>
    ({ w with ledger := (Git.start pf w.ledger i (.push expectedPendingHash)).1 },
      (Git.start pf w.ledger i (.push expectedPendingHash)).2)
  | .reject reason expectedPendingHash =>
    ({ w with ledger := (Git.start pf w.ledger i (.reject reason expectedPendingHash)).1 },
      (Git.start pf w.ledger i (.reject reason expectedPendingHash)).2)
  | .ledger call =>
    ({ w with ledger := (Git.start pf w.ledger i call).1 }, (Git.start pf w.ledger i call).2)

/-- What a stretch that leads to the ledger `L` does beside it: a reject empties the list when it
is through, a push does not. -/
def Wallet.moved (w : Wallet) (L : Ledger) : Task → Answer → Wallet
  | .snapshotting p, .state _ _ =>
    { w with
      ledger := L
      pushed :=
        if p.kind = .push then
          w.pushed ++ (L.git.commits.getLast?.map fun commit ↦ ⟨commit, w.staged, w.spoken⟩).toList
        else w.pushed }
  | .persisting p, .persisted =>
    { w with
      ledger := L
      staged := []
      stagedSubAccountIds := if p.kind = .push then w.stagedSubAccountIds else [] }
  | _, _ => { w with ledger := L }

def resume (w : Wallet) (i : Nat) (t : Task) (a : Answer) : Option (Wallet × Task) :=
  (Git.resume w.ledger i t a).map fun q ↦ (w.moved q.1 t a, q.2)

def walletProg : Prog Wallet Task WalletCall Answer where
  start := start pf dec acct broker
  resume := resume

abbrev WalletWorld := World Wallet Task

abbrev WalletEvent := Event WalletCall Answer

def WalletWorld.initial (g : TradingGit) : WalletWorld := ⟨{ ledger := ⟨g, []⟩ }, []⟩

/-! ## The condition -/

/-- The ledger takes an operation: no write is running, and no commit awaits approval. -/
def Takes (g : TradingGit) : Prop :=
  g.inflightWrite = false ∧ g.pendingHash = none ∧ g.pendingMessage = none

/-- No staging method throws once it has resolved a sub-account, and nothing that was staged for a
sub-account is committed again before it is pushed or rejected. -/
def CleanCall (w : Wallet) : WalletCall → Prop
  | .stage call =>
    (call.prepare dec acct broker).1.isSome = true →
      (∃ op, (call.prepare dec acct broker).2 = .ok op) ∧ Takes w.ledger.git
  | .commit _ _ =>
    w.ledger.git.inflightWrite = false → w.ledger.git.pendingMessage.isSome = true →
      resolvedIds w.staged = []
  | _ => True

def Clean (W : WalletWorld) : WalletEvent → Prop
  | .call c => CleanCall dec acct broker W.shared c
  | .resume _ _ => True

/-! ## The invariant -/

/-- **The list beside the ledger** is what was resolved for the staged operations until they are
committed, and then it is empty and the pending message has the tag. -/
structure Stamped (w : Wallet) : Prop where
  staged : w.staged.map Prod.fst = w.ledger.git.stagingArea
  free : w.ledger.git.pendingMessage = none → w.stagedSubAccountIds = resolvedIds w.staged
  taken : ∀ message, w.ledger.git.pendingMessage = some message →
    w.stagedSubAccountIds = [] ∧ message = stampSubAccount (resolvedIds w.staged) w.spoken
  pushed : ∀ p ∈ w.pushed, p.Exact

def Pushes (w : Wallet) : Task → Prop
  | .executing operations message _ _ =>
    operations = w.ledger.git.stagingArea ∧ w.ledger.git.pendingMessage = some message
  | .snapshotting p | .persisting p =>
    p.kind = .push →
      p.operations = w.ledger.git.stagingArea ∧ w.ledger.git.pendingMessage = some p.message
  | _ => True

variable {pf dec acct broker} {w : Wallet} {L : Ledger}

theorem Stamped.of_same (h : Stamped w) (hs : L.git.stagingArea = w.ledger.git.stagingArea)
    (hm : L.git.pendingMessage = w.ledger.git.pendingMessage) : Stamped { w with ledger := L } where
  staged := h.staged.trans hs.symm
  free hnone := h.free (hm.symm.trans hnone)
  taken message hsome := h.taken message (hm.symm.trans hsome)
  pushed := h.pushed

theorem Pushes.of_same {t : Task} (h : Pushes w t) {w' : Wallet}
    (hs : w'.ledger.git.stagingArea = w.ledger.git.stagingArea)
    (hm : w'.ledger.git.pendingMessage = w.ledger.git.pendingMessage) : Pushes w' t := by
  cases t with
  | executing operations message hash results => exact ⟨h.1.trans hs.symm, hm.trans h.2⟩
  | snapshotting p | persisting p =>
    exact fun hkind ↦ ⟨(h hkind).1.trans hs.symm, hm.trans (h hkind).2⟩
  | recording outcome | done outcome => trivial

/-! ## First stretches -/

variable (pf) in
theorem start_keeps (w : Wallet) (i : Nat) {call : Call} (hadd : ∀ op, call ≠ .add op)
    (hcommit : ∀ message now, call ≠ .commit message now) :
    (Git.start pf w.ledger i call).1.git.stagingArea = w.ledger.git.stagingArea ∧
      (Git.start pf w.ledger i call).1.git.pendingMessage = w.ledger.git.pendingMessage ∧
      Pushes w (Git.start pf w.ledger i call).2 := by
  have hs := start_spec pf w.ledger i call
  generalize Git.start pf w.ledger i call = q at hs ⊢
  obtain ⟨L, t⟩ := q
  cases hs with
  | @added op => exact absurd rfl (hadd op)
  | @prepared message now => exact absurd rfl (hcommit message now)
  | pushed _ hs hm _ => exact ⟨rfl, rfl, hs.symm, hm⟩
  | rejecting => exact ⟨rfl, rfl, fun hkind ↦ by cases hkind⟩
  | recorded hr =>
    obtain ⟨_, _, _, _, _, _, rfl⟩ := hr.append
    exact ⟨rfl, rfl, trivial⟩
  | settled => exact ⟨rfl, rfl, trivial⟩

variable (pf) in
theorem start_add (w : Wallet) (i : Nat) (op : Operation) : (∃ r, w.ledger.git.add op =
        .ok ({ w.ledger.git with stagingArea := w.ledger.git.stagingArea ++ [op] }, r) ∧
      Takes w.ledger.git ∧
      (Git.start pf w.ledger i (.add op)).1.git =
        { w.ledger.git with stagingArea := w.ledger.git.stagingArea ++ [op] }) ∨
    ((∃ e, w.ledger.git.add op = .error e) ∧ ¬ Takes w.ledger.git ∧
      (Git.start pf w.ledger i (.add op)).1 = w.ledger) := by
  simp only [Git.start]
  cases h : w.ledger.git.add op with
  | ok q =>
    obtain ⟨g, r⟩ := q
    obtain ⟨hf, hh, hm, rfl⟩ := TradingGit.add_ok h
    exact .inl ⟨r, rfl, ⟨hf, hh, hm⟩, rfl⟩
  | error e =>
    refine .inr ⟨⟨e, rfl⟩, ?_, rfl⟩
    rintro ⟨hf, hh, hm⟩
    rw [TradingGit.add, hf, hh, hm] at h
    cases h

theorem resolvedIds_concat (staged : List (Operation × Option String)) (op : Operation)
    (subAccountId : Option String) :
    resolvedIds (staged ++ [(op, subAccountId)]) = resolvedIds staged ++ subAccountId.toList := by
  rw [resolvedIds, List.filterMap_append]
  cases subAccountId <;> rfl

theorem aside_none (w : Wallet) :
    { w with stagedSubAccountIds := w.stagedSubAccountIds ++ (none : Option String).toList } = w := by
  rw [Option.toList_none, List.append_nil]

theorem Stamped.stage (h : Stamped w) {i : Nat} {call : StageCall}
    (hok : CleanCall dec acct broker w (.stage call)) :
    Stamped (start pf dec acct broker w i (.stage call)).1 := by
  have hok : (call.prepare dec acct broker).1.isSome = true →
      (∃ op, (call.prepare dec acct broker).2 = .ok op) ∧ Takes w.ledger.git := hok
  simp only [start]
  generalize call.prepare dec acct broker = prepared at hok ⊢
  obtain ⟨subAccountId, prepared⟩ := prepared
  cases prepared with
  | error text =>
    cases subAccountId with
    | none =>
      rw [aside_none]
      exact h
    | some id =>
      obtain ⟨⟨op, hop⟩, -⟩ := hok rfl
      cases hop
  | ok op =>
    rcases start_add pf w i op with ⟨r, hadd, ⟨_, _, hm⟩, hgit⟩ | ⟨⟨e, hadd⟩, hnot, hledger⟩
    · simp only [hadd]
      exact
        { staged := by
            rw [hgit, List.map_append, h.staged]
            rfl
          free := by
            intro _
            rw [resolvedIds_concat, h.free hm]
          taken := by
            intro message hmessage
            rw [hgit] at hmessage
            cases hm.symm.trans hmessage
          pushed := h.pushed }
    · cases subAccountId with
      | none =>
        simp only [hadd, hledger, Option.toList_none, List.append_nil]
        exact h
      | some id => exact absurd (hok rfl).2 hnot

/-- **A commit** moves what was resolved into the message, if nothing was resolved for what it had
committed before. -/
theorem Stamped.commit (h : Stamped w) {i : Nat} {message : String} {now : Timestamp}
    (hok : CleanCall dec acct broker w (.commit message now)) :
    Stamped (start pf dec acct broker w i (.commit message now)).1 := by
  have hok : w.ledger.git.inflightWrite = false → w.ledger.git.pendingMessage.isSome = true →
      resolvedIds w.staged = [] := hok
  have hids : w.ledger.git.inflightWrite = false →
      w.stagedSubAccountIds = resolvedIds w.staged := by
    intro hf
    cases hm : w.ledger.git.pendingMessage with
    | none => exact h.free hm
    | some pending =>
      rw [(h.taken pending hm).1, hok hf (by rw [hm]; rfl)]
  simp only [start, Git.start]
  cases hcommit : w.ledger.git.commit pf (stampSubAccount w.stagedSubAccountIds message) now with
  | error e =>
    simp only
    exact h
  | ok q =>
    obtain ⟨g, r⟩ := q
    obtain ⟨hf, -, -, rfl⟩ := TradingGit.commit_ok hcommit
    simp only
    exact
      { staged := h.staged
        free := fun hnone ↦ by cases hnone
        taken := by
          rintro pending ⟨⟩
          exact ⟨rfl, by rw [hids hf]⟩
        pushed := h.pushed }

theorem Stamped.call (h : Stamped w) (i : Nat) {call : Call} (hadd : ∀ op, call ≠ .add op)
    (hcommit : ∀ message now, call ≠ .commit message now) :
    Stamped { w with ledger := (Git.start pf w.ledger i call).1 } ∧
      Pushes { w with ledger := (Git.start pf w.ledger i call).1 }
        (Git.start pf w.ledger i call).2 := by
  obtain ⟨hs, hm, hpushes⟩ := start_keeps pf w i hadd hcommit
  exact ⟨h.of_same hs hm, hpushes.of_same hs hm⟩

variable (pf) in
theorem start_settled {call : Call}
    (h : (∃ op, call = .add op) ∨ ∃ message now, call = .commit message now)
    (L : Ledger) (i : Nat) : ∃ o, (Git.start pf L i call).2 = .done o := by
  rcases h with ⟨op, rfl⟩ | ⟨message, now, rfl⟩
  · simp only [Git.start]
    cases L.git.add op with
    | ok q => exact ⟨_, rfl⟩
    | error e => exact ⟨_, rfl⟩
  simp only [Git.start]
  cases L.git.commit pf message now with
  | ok q => exact ⟨_, rfl⟩
  | error e => exact ⟨_, rfl⟩

/-- A call that meets the condition keeps the invariant, and a write that begins works on what is
staged. -/
theorem Stamped.start (h : Stamped w) (i : Nat) {c : WalletCall}
    (hok : CleanCall dec acct broker w c) :
    Stamped (start pf dec acct broker w i c).1 ∧
      Pushes (start pf dec acct broker w i c).1 (start pf dec acct broker w i c).2 := by
  cases c with
  | stage call =>
    refine ⟨h.stage hok, ?_⟩
    simp only [SubAccounts.start]
    cases (call.prepare dec acct broker).2 with
    | error text => trivial
    | ok op =>
      obtain ⟨o, ho⟩ := start_settled pf (.inl ⟨op, rfl⟩) w.ledger i
      simp only [ho]
      trivial
  | commit message now =>
    refine ⟨h.commit hok, ?_⟩
    obtain ⟨o, ho⟩ := start_settled pf
      (.inr ⟨stampSubAccount w.stagedSubAccountIds message, now, rfl⟩) w.ledger i
    simp only [SubAccounts.start, ho]
    trivial
  | push refusal expected =>
    cases refusal with
    | some text => exact ⟨h, trivial⟩
    | none => exact h.call i (fun _ ↦ by rintro ⟨⟩) fun _ _ ↦ by rintro ⟨⟩
  | reject reason expected => exact h.call i (fun _ ↦ by rintro ⟨⟩) fun _ _ ↦ by rintro ⟨⟩
  | ledger call =>
    obtain ⟨call, hclient⟩ := call
    refine h.call i ?_ ?_
    · rintro op rfl
      cases hclient
    · rintro message now rfl
      cases hclient

/-! ## Later stretches -/

theorem Stamped.exact (h : Stamped w) {p : Git.Pending} {s : GitState} {now : Timestamp}
    (hkind : p.kind = .push) (hpushes : Pushes w (.snapshotting p)) :
    ∀ commit ∈ (w.ledger.git.append p.hash p.message p.operations p.results s now).commits.getLast?,
      Pushed.Exact ⟨commit, w.staged, w.spoken⟩ := by
  intro commit hcommit
  obtain ⟨hoperations, hmessage⟩ := hpushes hkind
  rw [append_commits, List.getLast?_concat] at hcommit
  obtain rfl := Option.some.inj (Option.mem_def.mp hcommit)
  exact ⟨hoperations.trans h.staged.symm, (h.taken _ hmessage).2⟩

theorem Stamped.resume (h : Stamped w) {i : Nat} {t t' : Task} {a : Answer} (hpushes : Pushes w t)
    (hr : Resumed w.ledger i t a L t') :
    Stamped (w.moved L t a) ∧ Pushes (w.moved L t a) t' := by
  cases hr with
  | dispatched => exact ⟨h.of_same rfl rfl, hpushes⟩
  | executed => exact ⟨h.of_same rfl rfl, fun _ ↦ hpushes⟩
  | @appended p s now =>
    refine ⟨⟨h.staged, h.free, h.taken, ?_⟩, hpushes⟩
    intro record hrecord
    simp only [Wallet.moved] at hrecord
    split_ifs at hrecord with hkind
    · rcases List.mem_append.mp hrecord with hold | hnew
      · exact h.pushed record hold
      · obtain ⟨commit, hcommit, rfl⟩ := Option.map_eq_some_iff.mp (Option.mem_toList.mp hnew)
        exact h.exact hkind hpushes commit hcommit
    · exact h.pushed record hrecord
  | @cleared p o =>
    refine ⟨⟨rfl, fun _ ↦ ?_, fun message hmessage ↦ (by cases hmessage), h.pushed⟩, trivial⟩
    simp only [Wallet.moved]
    split_ifs with hkind
    · exact (h.taken _ (hpushes hkind).2).1
    · rfl
  | @failed p t text o ht => rcases ht with rfl | rfl <;> exact ⟨h.of_same rfl rfl, trivial⟩
  | settled => exact ⟨h.of_same rfl rfl, trivial⟩

/-! ## The in-flight flag -/

@[simp] theorem moved_ledger (w : Wallet) (L : Ledger) (t : Task) (a : Answer) :
    (w.moved L t a).ledger = L := by
  cases t <;> cases a <;> rfl

theorem resume_eq_some {w' : Wallet} {i : Nat} {t t' : Task} {a : Answer}
    (h : resume w i t a = some (w', t')) :
    ∃ L, Git.resume w.ledger i t a = some (L, t') ∧ w' = w.moved L t a := by
  obtain ⟨⟨L, t⟩, hr, hq⟩ := Option.map_eq_some_iff.mp h
  obtain ⟨rfl, rfl⟩ := Prod.mk.inj hq
  exact ⟨L, hr, rfl⟩

theorem walletLock :
    Lock (walletProg pf dec acct broker) (fun w ↦ inflight w.ledger) Task.writing where
  start := by
    intro w i c
    simp only [walletProg]
    cases c with
    | stage call =>
      simp only [SubAccounts.start]
      cases (call.prepare dec acct broker).2 with
      | error text => exact .inr ⟨rfl, rfl⟩
      | ok op => exact (gitLock pf).start w.ledger i (.add op)
    | commit message now => exact (gitLock pf).start w.ledger i (.commit _ now)
    | push refusal expected =>
      cases refusal with
      | some text => exact .inr ⟨rfl, rfl⟩
      | none => exact (gitLock pf).start w.ledger i (.push expected)
    | reject reason expected => exact (gitLock pf).start w.ledger i (.reject reason expected)
    | ledger call => exact (gitLock pf).start w.ledger i call
  idle := by
    intro w i t a w' t' ht h
    obtain ⟨L, hr, rfl⟩ := resume_eq_some h
    rw [moved_ledger]
    exact (gitLock pf).idle w.ledger i t a L t' ht hr
  owner := by
    intro w i t a w' t' ht hf h
    obtain ⟨L, hr, rfl⟩ := resume_eq_some h
    rw [moved_ledger]
    exact (gitLock pf).owner w.ledger i t a L t' ht hf hr

theorem resumed_idle {i : Nat} {t t' : Task} {a : Answer} (ht : t.writing = false)
    (hr : Resumed w.ledger i t a L t') : L = w.ledger ∧ Pushes w t := by
  cases hr with
  | settled => exact ⟨rfl, trivial⟩
  | failed hfailed => rcases hfailed with rfl | rfl <;> cases ht
  | _ => cases ht

theorem start_locked (hf : inflight w.ledger = true) (i : Nat) (c : WalletCall) :
    (start pf dec acct broker w i c).1.ledger.git.stagingArea = w.ledger.git.stagingArea ∧
      (start pf dec acct broker w i c).1.ledger.git.pendingMessage =
        w.ledger.git.pendingMessage := by
  have hsame : ∀ call : Call,
      (Git.start pf w.ledger i call).1.git.stagingArea = w.ledger.git.stagingArea ∧
        (Git.start pf w.ledger i call).1.git.pendingMessage = w.ledger.git.pendingMessage := by
    intro call
    have hs := Git.start_spec pf w.ledger i call
    generalize Git.start pf w.ledger i call = q at hs ⊢
    obtain ⟨L, t⟩ := q
    cases hs with
    | added hf' _ _ | prepared hf' _ _ | pushed hf' _ _ _ | rejecting hf' _ _ _ _ =>
      cases hf.symm.trans hf'
    | recorded hr =>
      obtain ⟨_, _, _, _, _, _, rfl⟩ := hr.append
      exact ⟨rfl, rfl⟩
    | settled => exact ⟨rfl, rfl⟩
  cases c with
  | stage call =>
    simp only [SubAccounts.start]
    cases (call.prepare dec acct broker).2 with
    | error text => exact ⟨rfl, rfl⟩
    | ok op => exact hsame _
  | commit message now => exact hsame _
  | push refusal expected =>
    cases refusal with
    | some text => exact ⟨rfl, rfl⟩
    | none => exact hsame _
  | reject reason expected => exact hsame _
  | ledger call => exact hsame _

theorem stampObligations :
    Obligations (walletProg pf dec acct broker) (fun w ↦ inflight w.ledger) Task.writing
      (Clean dec acct broker) Stamped fun w _ t ↦ Pushes w t where
  start W c hok h _ := by
    obtain ⟨hstamped, hpushes⟩ := h.start W.tasks.length hok
    exact ⟨hstamped, fun _ ↦ hpushes⟩
  startOther W c j k _ _ hf _ hpushes := by
    obtain ⟨hs, hm⟩ := start_locked hf W.tasks.length c
    exact hpushes.of_same hs hm
  idle W i t a w' t' _ _ h ht hr := by
    obtain ⟨L, hL, rfl⟩ := resume_eq_some hr
    obtain ⟨hstamped, hpushes⟩ := h.resume (resumed_idle ht (resume_spec hL)).2 (resume_spec hL)
    exact ⟨hstamped, fun _ ↦ hpushes⟩
  idleOther W i t a w' t' j k _ _ _ _ ht hr _ hpushes := by
    obtain ⟨L, hL, rfl⟩ := resume_eq_some hr
    have hsame := (resumed_idle ht (resume_spec hL)).1
    exact hpushes.of_same (by rw [moved_ledger, hsame]) (by rw [moved_ledger, hsame])
  owner W i t a w' t' _ _ h _ _ hpushes hr := by
    obtain ⟨L, hL, rfl⟩ := resume_eq_some hr
    obtain ⟨hstamped, hpushes⟩ := h.resume hpushes (resume_spec hL)
    exact ⟨hstamped, fun _ ↦ hpushes⟩

/-! ## The theorem -/

theorem stamped_initial {g : TradingGit} (hg : Idle g) :
    Stamped (WalletWorld.initial g).shared where
  staged := hg.staging.symm
  free _ := rfl
  taken message hmessage := by
    cases hg.message.symm.trans hmessage
  pushed _ hp := by cases hp

/-- **The stamp records the committed batch**, in every run in which no staging method throws once
it has resolved a sub-account, and nothing staged for a sub-account is committed again before it is
pushed or rejected. -/
theorem stamp_exact {g : TradingGit} (hg : Idle g) {W : WalletWorld}
    (h : Reach (walletProg pf dec acct broker).step (Clean dec acct broker)
      (WalletWorld.initial g) W) :
    ∀ p ∈ W.shared.pushed, p.Exact :=
  (walletLock.assertions stampObligations hg.flag (stamped_initial hg) h).inv.pushed

/-! ## Two wallets -/

def sampleDecimals : Decimals where
  parse text := if text = "2" then some 2 else none
  isFinite _ := true

def sampleAccount : Account where
  id := "acct"
  label := "Acct"
  subAccounts := [⟨"spot", "spot"⟩, ⟨"derivatives", "derivatives"⟩]

def sampleBroker : Adapter Unit where
  getNativeKey c := c.localSymbol
  resolveNativeKey key := .ok { symbol := key, localSymbol := key }
  placeOrder _ _ _ := .ok ()
  closePosition _ _ _ := .ok ()

def sampleOrder (subAccountId totalQuantity : String) : StageCall :=
  .placeOrder
    { aliceId := "acct|BTC", subAccountId := some subAccountId, action := .BUY, orderType := "MKT"
      totalQuantity := some totalQuantity }

def pushAll (task : Nat) : List WalletEvent :=
  [.call (.commit "go" 1), .call (.push none "00000000"),
    .resume task (.reply (.object true none (some "1") none [])), .resume task (.state {} 2),
    .resume task .persisted]

/-- The order goes to the spot wallet, and its commit says so. -/
theorem stamp_exact_spot : ∃ W : WalletWorld,
    Reach (walletProg constPlatform sampleDecimals sampleAccount sampleBroker).step
      (Clean sampleDecimals sampleAccount sampleBroker) (WalletWorld.initial {}) W ∧
    W.shared.pushed.map (fun p ↦ p.commit.message) = ["go [sub:spot]"] ∧
    ∀ p ∈ W.shared.pushed, p.Exact := by
  have hok : ExecOk (walletProg constPlatform sampleDecimals sampleAccount sampleBroker).step
      (Clean sampleDecimals sampleAccount sampleBroker) (WalletWorld.initial {})
      (.call (.stage (sampleOrder "spot" "2")) :: pushAll 2) := by
    refine ⟨fun _ ↦ ⟨⟨_, rfl⟩, rfl, rfl, rfl⟩, ?_⟩
    rintro staged ⟨⟩
    refine ⟨?_, fun committed _ ↦ execOk_of_forall ?_ committed⟩
    · intro _ hpending
      cases hpending
    · simp [Clean, CleanCall]
  have hrun := Reach.of_execOk rfl hok
  exact ⟨_, hrun, by decide, stamp_exact idle_new hrun⟩

/-- An order with an invalid size for the spot wallet is not staged; the order that is committed
next goes to the other wallet, and its commit says both. -/
theorem leaked_stamp : ¬ ∀ (pf : Platform) (dec : Decimals) (acct : Account) (broker : Adapter Unit)
    (W : WalletWorld), Reach (walletProg pf dec acct broker).step anyStep
    (WalletWorld.initial {}) W →
      ∀ p ∈ W.shared.pushed, p.Exact := by
  intro hall
  have hrun : Reach (walletProg constPlatform sampleDecimals sampleAccount sampleBroker).step anyStep
      (WalletWorld.initial {}) _ :=
    .of_exec (.call (.stage (sampleOrder "spot" "two")) ::
      .call (.stage (sampleOrder "derivatives" "2")) :: pushAll 3) rfl
  have hmessage := (hall _ _ _ _ _ hrun _ (.head _)).message
  revert hmessage
  decide

end OpenAlice.Trading.SubAccounts
