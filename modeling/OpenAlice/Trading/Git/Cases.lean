import OpenAlice.Trading.Git.Step

/-!
# What a stretch of a call can do

`Started` and `Resumed` list, case by case, everything the first and the later
stretches of a call can do to the object, its history and the call itself;
`start_spec` and `resume_spec` say that the lists are complete.  The invariants
of the ledger are proved from these lists, never from the code of the steps.
-/

namespace OpenAlice.Trading.Git

open OpenAlice.Run TradingGit

/-! ## The fields an operation of the object leaves alone -/

section Fields

variable (g : TradingGit) (hash : CommitHash) (message : String) (operations : List Operation)
variable (results : List OperationResult) (s : GitState) (t : Timestamp)

@[simp] theorem append_head : (g.append hash message operations results s t).head = some hash := rfl

@[simp] theorem append_commits : (g.append hash message operations results s t).commits =
      g.commits ++ [⟨hash, g.head, message, operations, results, s, t, g.currentRound⟩] := rfl

end Fields

@[simp] theorem note_git (L : Ledger) (acts : List Act) : (L.note acts).git = L.git := rfl

@[simp] theorem note_history (L : Ledger) (acts : List Act) :
    (L.note acts).history = L.history ++ acts := rfl

/-! ## Objects no call was made on -/

/-- Nothing staged, nothing pending, nothing running: an object no call was
made on, new or restored. -/
structure Idle (g : TradingGit) : Prop where
  staging : g.stagingArea = []
  message : g.pendingMessage = none
  hash : g.pendingHash = none
  flag : g.inflightWrite = false

theorem idle_new : Idle {} := ⟨rfl, rfl, rfl, rfl⟩

/-! ## First stretches -/

variable (pf : Platform)

/-- The three writers that go straight to the log. -/
inductive Recorded (g : TradingGit) : Call → TradingGit → Prop
  | reconcile (p : ReconcileParams) (now : Timestamp) :
      Recorded g (.recordReconcile p now) (g.recordReconcile pf p now).1
  | observed (os : List ObservedOrder) (s : GitState) (now : Timestamp) :
      Recorded g (.recordObservedOrders os s now) (g.recordObservedOrders pf os s now).1
  | sync (us : List OrderStatusUpdate) (s : GitState) (hashedAt now : Timestamp) (hne : us ≠ []) :
      Recorded g (.sync us s hashedAt now) (g.sync pf us s hashedAt now).1

variable {pf} in
theorem Recorded.append {g g' : TradingGit} {c : Call} (h : Recorded pf g c g') :
    ∃ hash message operations results s t, g' = g.append hash message operations results s t := by
  cases h with
  | reconcile p now => exact ⟨_, _, _, _, _, _, rfl⟩
  | observed os s now => exact ⟨_, _, _, _, _, _, rfl⟩
  | sync us s hashedAt now hne => exact ⟨_, _, _, _, _, _, rfl⟩

/-- Everything the first stretch of call number `i` can do. -/
inductive Started (L : Ledger) (i : Nat) : Call → Ledger → Task → Prop
  /-- `add` staged its operation. -/
  | added {op : Operation} {r : AddResult} (hf : L.git.inflightWrite = false)
      (hh : L.git.pendingHash = none) (hm : L.git.pendingMessage = none) :
      Started L i (.add op)
        (Ledger.note { L with git := { L.git with stagingArea := L.git.stagingArea ++ [op] } }
          [.staged op])
        (.done (.added r))
  /-- `commit` fixed the staged operations. -/
  | prepared {message : String} {now : Timestamp} {r : CommitPrepareResult}
      (hf : L.git.inflightWrite = false) (hs : L.git.stagingArea ≠ [])
      (hr : r.hash = pf.generateCommitHash (L.git.pendingContent message now)) :
      Started L i (.commit message now)
        (Ledger.note { L with git := { L.git with
          pendingHash := some r.hash, pendingMessage := some message } }
          [.prepared r.hash L.git.stagingArea])
        (.done (.prepared r))
  | pushed {op : Operation} {rest : List Operation} {message : String} {hash : CommitHash}
      (hf : L.git.inflightWrite = false) (hs : L.git.stagingArea = op :: rest)
      (hm : L.git.pendingMessage = some message) (hh : L.git.pendingHash = some hash) :
      Started L i (.push hash)
        (Ledger.note { L with git := { L.git with inflightWrite := true } }
          [.began i .push hash, .dispatched i op])
        (.executing (op :: rest) message hash [])
  | rejecting {reason : Option String} {operations : List Operation} {message : String}
      {hash : CommitHash} (hf : L.git.inflightWrite = false) (hne : operations ≠ [])
      (hs : L.git.stagingArea = operations) (hm : L.git.pendingMessage = some message)
      (hh : L.git.pendingHash = some hash) :
      Started L i (.reject reason hash)
        (Ledger.note { L with git := { L.git with inflightWrite := true } }
          [.began i (.reject reason) hash])
        (.snapshotting ⟨.reject reason, operations, rejectMessage message reason, hash,
          rejectResults operations reason⟩)
  | recorded {c : Call} {g' : TradingGit} {o : Outcome} (hr : Recorded pf L.git c g') :
      Started L i c { L with git := g' } (.recording o)
  /-- The call settled at once and changed nothing but the current round. -/
  | settled {c : Call} {round : Option Nat} {o : Outcome} :
      Started L i c { L with git := { L.git with currentRound := round } } (.done o)

theorem Started.refused {L : Ledger} {i : Nat} {c : Call} {o : Outcome} :
    Started pf L i c L (.done o) := by
  have h : Started pf L i c { L with git := { L.git with currentRound := L.git.currentRound } }
      (.done o) := .settled
  exact h

theorem start_spec (L : Ledger) (i : Nat) (c : Call) :
    Started pf L i c (start pf L i c).1 (start pf L i c).2 := by
  cases c with
  | add op =>
    simp only [start]
    cases h : L.git.add op with
    | error e => exact .refused pf
    | ok q =>
      obtain ⟨g', r⟩ := q
      obtain ⟨hf, hh, hm, rfl⟩ := add_ok h
      exact .added hf hh hm
  | commit message now =>
    simp only [start]
    cases h : L.git.commit pf message now with
    | error e => exact .refused pf
    | ok q =>
      obtain ⟨g', r⟩ := q
      obtain ⟨hf, hs, hr, rfl⟩ := commit_ok h
      exact .prepared hf hs hr
  | write kind expected =>
    simp only [start]
    cases h : L.git.openWrite kind expected with
    | error e => exact .refused pf
    | ok q =>
      obtain ⟨g', operations, message, hash⟩ := q
      obtain ⟨hf, hne, hs, hm, hh, rfl, rfl⟩ := openWrite_ok h
      cases kind with
      | push =>
        cases operations with
        | nil => exact absurd rfl hne
        | cons op rest => exact Started.pushed hf hs hm hh
      | reject reason => exact Started.rejecting hf hne hs hm hh
  | recordReconcile params now => exact .recorded (.reconcile params now)
  | recordObservedOrders os s now => exact .recorded (.observed os s now)
  | sync us s hashedAt now =>
    simp only [start]
    split
    · exact .refused pf
    · rename_i hne
      exact .recorded (.sync us s hashedAt now hne)
  | setCurrentRound round => exact .settled

/-! ## Later stretches -/

/-- The result a push records for an operation it dispatched: read off the
reply, or made of the error the dispatch threw. -/
inductive Answered (op : Operation) : Answer → OperationResult → Prop
  | replied (raw : RawReply) : Answered op (.reply raw) (parseOperationResult op raw)
  | threw (text : String) : Answered op (.threw text) (thrownResult op text)

/-- Everything a later stretch of call number `i` can do with the answer it
waited for. -/
inductive Resumed (L : Ledger) (i : Nat) : Task → Answer → Ledger → Task → Prop
  /-- A push recorded a result and dispatched its next operation. -/
  | dispatched {operations : List Operation} {message : String} {hash : CommitHash}
      {results : List OperationResult} {op₀ op : Operation} {a : Answer} {r : OperationResult}
      (hop₀ : operations[results.length]? = some op₀) (hr : Answered op₀ a r)
      (hop : operations[results.length + 1]? = some op) :
      Resumed L i (.executing operations message hash results) a (L.note [.dispatched i op])
        (.executing operations message hash (results ++ [r]))
  | executed {operations : List Operation} {message : String} {hash : CommitHash}
      {results : List OperationResult} {op₀ : Operation} {a : Answer} {r : OperationResult}
      (hop₀ : operations[results.length]? = some op₀) (hr : Answered op₀ a r)
      (hlen : operations.length = results.length + 1) :
      Resumed L i (.executing operations message hash results) a L
        (.snapshotting ⟨.push, operations, message, hash, results ++ [r]⟩)
  | appended {p : Pending} {s : GitState} {now : Timestamp} :
      Resumed L i (.snapshotting p) (.state s now)
        (Ledger.note { L with git := L.git.append p.hash p.message p.operations p.results s now }
          [.appended i p.hash])
        (.persisting p)
  | cleared {p : Pending} {o : Outcome} :
      Resumed L i (.persisting p) .persisted
        (Ledger.note { L with git := L.git.clearStaging.endWrite } [.cleared i]) (.done o)
  /-- A write failed in `getGitState` or in `onCommit`. -/
  | failed {p : Pending} {t : Task} {text : String} {o : Outcome}
      (ht : t = .snapshotting p ∨ t = .persisting p) :
      Resumed L i t (.threw text) { L with git := L.git.endWrite } (.done o)
  | settled {o o' : Outcome} {a : Answer} : Resumed L i (.recording o) a L (.done o')

theorem nextOperation_spec (L : Ledger) (i : Nat) {operations : List Operation} (message : String)
    (hash : CommitHash) {results : List OperationResult} {op : Operation} {a : Answer}
    {r : OperationResult} (hop : operations[results.length]? = some op) (hr : Answered op a r) :
    Resumed L i (.executing operations message hash results) a
      (nextOperation L i operations message hash (results ++ [r])).1
      (nextOperation L i operations message hash (results ++ [r])).2 := by
  have hlt : results.length < operations.length := (List.getElem?_eq_some_iff.mp hop).1
  simp only [nextOperation, List.length_append, List.length_singleton]
  cases hn : operations[results.length + 1]? with
  | some op' => exact .dispatched hop hr hn
  | none =>
    have := List.getElem?_eq_none_iff.mp hn
    exact .executed hop hr (by omega)

theorem resume_spec {L L' : Ledger} {i : Nat} {t t' : Task} {a : Answer}
    (h : resume L i t a = some (L', t')) : Resumed L i t a L' t' := by
  cases t with
  | executing operations message hash results =>
    cases a with
    | reply raw =>
      obtain ⟨op, hop, h⟩ := Option.map_eq_some_iff.mp h
      have hn := nextOperation_spec L i message hash hop (.replied raw)
      rwa [h] at hn
    | threw text =>
      obtain ⟨op, hop, h⟩ := Option.map_eq_some_iff.mp h
      have hn := nextOperation_spec L i message hash hop (.threw text)
      rwa [h] at hn
    | state s now => cases h
    | persisted => cases h
  | snapshotting p =>
    cases a with
    | state s now =>
      cases h
      exact .appended
    | threw text =>
      cases h
      exact .failed (.inl rfl)
    | reply raw => cases h
    | persisted => cases h
  | persisting p =>
    cases a with
    | persisted =>
      cases h
      exact .cleared
    | threw text =>
      cases h
      exact .failed (.inr rfl)
    | reply raw => cases h
    | state s now => cases h
  | recording o =>
    cases a with
    | persisted =>
      cases h
      exact .settled
    | threw text =>
      cases h
      exact .settled
    | reply raw => cases h
    | state s now => cases h
  | done o => cases a <;> cases h

/-! ## The in-flight flag -/

abbrev inflight (L : Ledger) : Bool := L.git.inflightWrite

theorem gitLock : Lock (gitProg pf) inflight Task.writing where
  start := by
    intro L i c
    have h := start_spec pf L i c
    simp only [gitProg]
    generalize start pf L i c = q at h ⊢
    obtain ⟨L', t⟩ := q
    cases h with
    | added hf _ _ => exact .inr ⟨rfl, rfl⟩
    | prepared hf _ _ => exact .inr ⟨rfl, rfl⟩
    | pushed hf _ _ _ => exact .inl ⟨rfl, hf, rfl⟩
    | rejecting hf _ _ _ _ => exact .inl ⟨rfl, hf, rfl⟩
    | recorded hr =>
      obtain ⟨_, _, _, _, _, _, rfl⟩ := hr.append
      exact .inr ⟨rfl, rfl⟩
    | settled => exact .inr ⟨rfl, rfl⟩
  idle := by
    intro L i t a L' t' ht h
    have hr : Resumed L i t a L' t' := resume_spec h
    clear h
    cases hr with
    | settled => exact .inr ⟨rfl, rfl⟩
    | failed h => rcases h with rfl | rfl <;> cases ht
    | _ => cases ht
  owner := by
    intro L i t a L' t' ht hf h
    have hr : Resumed L i t a L' t' := resume_spec h
    clear h
    cases hr with
    | dispatched _ _ _ => exact hf
    | executed _ _ _ => exact hf
    | appended => exact hf
    | cleared => rfl
    | failed _ => rfl
    | settled => cases ht

variable {pf}

theorem exclusive_of_reach {g : TradingGit} {ok : GitWorld → GitEvent → Prop} {W : GitWorld}
    (hg : g.inflightWrite = false) (h : Reach (gitProg pf).step ok (GitWorld.initial g) W) :
    Exclusive inflight Task.writing W :=
  (gitLock pf).exclusive hg h

/-! ## The first stretches of an approved push -/

variable (pf) in
theorem step_push {W : GitWorld} {op : Operation} {rest : List Operation} {message : String}
    {hash : CommitHash} (hf : W.shared.git.inflightWrite = false)
    (hs : W.shared.git.stagingArea = op :: rest) (hm : W.shared.git.pendingMessage = some message)
    (hh : W.shared.git.pendingHash = some hash) (hne : hash ≠ "") :
    (gitProg pf).step W (.call (.push hash)) =
      some ⟨Ledger.note { W.shared with git := { W.shared.git with inflightWrite := true } }
          [.began W.tasks.length .push hash, .dispatched W.tasks.length op],
        W.tasks ++ [.executing (op :: rest) message hash []]⟩ := by
  have ho := openWrite_of .push hf (List.cons_ne_nil op rest) hs hm hh hne
  simp only [Prog.step, gitProg, start, ho, startWrite]

theorem reach_push {ok : GitWorld → GitEvent → Prop} {W₀ W : GitWorld} {op : Operation}
    {rest : List Operation} {message : String} {hash : CommitHash}
    (h : Reach (gitProg pf).step ok W₀ W) (hf : W.shared.git.inflightWrite = false)
    (hs : W.shared.git.stagingArea = op :: rest) (hm : W.shared.git.pendingMessage = some message)
    (hh : W.shared.git.pendingHash = some hash) (hne : hash ≠ "")
    (hok : ok W (.call (.push hash))) :
    Reach (gitProg pf).step ok W₀
      ⟨Ledger.note { W.shared with git := { W.shared.git with inflightWrite := true } }
          [.began W.tasks.length .push hash, .dispatched W.tasks.length op],
        W.tasks ++ [.executing (op :: rest) message hash []]⟩ :=
  h.tail hok (step_push pf hf hs hm hh hne)

/-- An object with one operation staged and committed, after the two calls that
did it. -/
def GitWorld.prepared (op : Operation) (message : String) (hash : CommitHash) : GitWorld :=
  ⟨⟨⟨[op], some message, some hash, false, [], none, none⟩,
    [.staged op, .prepared hash [op]]⟩,
    [.done (.added ⟨0, op⟩), .done (.prepared ⟨hash, message, 1⟩)]⟩

variable (pf) in
theorem exec_prepare (op : Operation) (message : String) (now : Timestamp) :
    exec (gitProg pf).step (GitWorld.initial {}) [.call (.add op), .call (.commit message now)] =
      some (GitWorld.prepared op message
        (pf.generateCommitHash (.operations message [op] now none))) := rfl

end OpenAlice.Trading.Git
