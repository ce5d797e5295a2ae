import OpenAlice.Trading.Git.Cases
import OpenAlice.Trading.Git.Digest

/-!
# At most once

A write that fails leaves the staging area, the pending message and the pending
hash as they were, so the same commit can be written again.  After a failing
`getGitState` its operations have been dispatched, after a failing `onCommit`
its hash is in the log as well; `not_at_most_once` is the first of the two.

Where no write is opened on operations that were dispatched already, nor under a
hash that is in the log already, every staged operation is dispatched at most
once and every pending hash is logged at most once (`at_most_once`).
-/

namespace OpenAlice.Trading.Git

open OpenAlice.Run TradingGit

/-! ## Since the staging area was last emptied -/

/-- One more act: collect what `pick` sees in it, and start over when the
staging area is emptied. -/
def sinceClearedStep (pick : Act → Option Operation) (l : List Operation) : Act → List Operation
  | .cleared _ => []
  | a => l ++ (pick a).toList

/-- What `pick` sees in the acts since the staging area was last emptied. -/
def sinceCleared (pick : Act → Option Operation) (history : List Act) : List Operation :=
  history.foldl (sinceClearedStep pick) []

def Act.stagedOp : Act → Option Operation
  | .staged op => some op
  | _ => none

def Act.dispatchedOp : Act → Option Operation
  | .dispatched _ op => some op
  | _ => none

def stagedSince (history : List Act) : List Operation := sinceCleared Act.stagedOp history

def dispatchedSince (history : List Act) : List Operation := sinceCleared Act.dispatchedOp history

@[simp] theorem sinceCleared_append (pick : Act → Option Operation) (history acts : List Act) :
    sinceCleared pick (history ++ acts) =
      acts.foldl (sinceClearedStep pick) (sinceCleared pick history) := by
  rw [sinceCleared, List.foldl_append]
  rfl

def InOrder (history : List Act) : Prop := dispatchedSince history <+: stagedSince history

/-- **At most once.**  At every moment up to now the operations dispatched were
the first of those staged, each in its position, and every hash `commit`
returned is at most once in the log. -/
structure AtMostOnce (L : Ledger) : Prop where
  dispatched : ∀ history, history <+: L.history → InOrder history
  logged : ∀ hash ops, .prepared hash ops ∈ L.history →
    (L.git.commits.map GitCommit.hash).count hash ≤ 1

/-! ## The runs -/

def clientStep (_ : GitWorld) : GitEvent → Prop
  | .call c => c.isClient = true
  | .resume .. => True

/-- A client's step that opens no write on a commit that was written, or partly
written, before: when a push or a reject gets past its checks the pending hash is
not in the log, and when a push does no operation was dispatched since the
staging area was last emptied. -/
def freshStep (W : GitWorld) : GitEvent → Prop
  | .call (.write kind expected) =>
    W.shared.git.inflightWrite = false → W.shared.git.pendingHash = some expected →
      expected ∉ W.shared.git.commits.map GitCommit.hash ∧
        (kind = .push → dispatchedSince W.shared.history = [])
  | e => clientStep W e

/-! ## The invariant -/

/-- What holds of the object and its history. -/
structure Once (L : Ledger) : Prop where
  /-- No hash is in the log twice. -/
  nodup : (L.git.commits.map GitCommit.hash).Nodup
  staging : stagedSince L.history = L.git.stagingArea
  inOrder : ∀ history, history <+: L.history → InOrder history

def OnceTask (L : Ledger) : Task → Prop
  | .executing operations _ hash results =>
    L.git.stagingArea = operations ∧
      dispatchedSince L.history = operations.take (results.length + 1) ∧
      hash ∉ L.git.commits.map GitCommit.hash
  | .snapshotting p => p.hash ∉ L.git.commits.map GitCommit.hash
  | _ => True

theorem inOrder_concat {history : List Act} {a : Act} (h : ∀ l, l <+: history → InOrder l)
    (ha : InOrder (history ++ [a])) : ∀ l, l <+: history ++ [a] → InOrder l := by
  intro l hl
  rcases List.prefix_concat_iff.mp hl with rfl | hl
  · exact ha
  · exact h l hl

def Act.Silent (a : Act) : Prop :=
  ∀ pick l, pick = Act.stagedOp ∨ pick = Act.dispatchedOp → sinceClearedStep pick l a = l

theorem silent_prepared (hash : CommitHash) (ops : List Operation) :
    (Act.prepared hash ops).Silent := by
  rintro _ l (rfl | rfl) <;> simp [sinceClearedStep, Act.stagedOp, Act.dispatchedOp]

theorem silent_began (i : Nat) (kind : WriteKind) (hash : CommitHash) :
    (Act.began i kind hash).Silent := by
  rintro _ l (rfl | rfl) <;> simp [sinceClearedStep, Act.stagedOp, Act.dispatchedOp]

theorem silent_appended (i : Nat) (hash : CommitHash) : (Act.appended i hash).Silent := by
  rintro _ l (rfl | rfl) <;> simp [sinceClearedStep, Act.stagedOp, Act.dispatchedOp]

theorem Act.Silent.staged {a : Act} (h : a.Silent) (history : List Act) :
    stagedSince (history ++ [a]) = stagedSince history := by
  rw [stagedSince, sinceCleared_append]
  exact h _ _ (.inl rfl)

theorem Act.Silent.dispatched {a : Act} (h : a.Silent) (history : List Act) :
    dispatchedSince (history ++ [a]) = dispatchedSince history := by
  rw [dispatchedSince, sinceCleared_append]
  exact h _ _ (.inr rfl)

@[simp] theorem stagedSince_staged (history : List Act) (op : Operation) :
    stagedSince (history ++ [.staged op]) = stagedSince history ++ [op] := by
  simp [stagedSince, sinceClearedStep, Act.stagedOp]

@[simp] theorem dispatchedSince_staged (history : List Act) (op : Operation) :
    dispatchedSince (history ++ [.staged op]) = dispatchedSince history := by
  simp [dispatchedSince, sinceClearedStep, Act.dispatchedOp]

@[simp] theorem stagedSince_dispatched (history : List Act) (i : Nat) (op : Operation) :
    stagedSince (history ++ [.dispatched i op]) = stagedSince history := by
  simp [stagedSince, sinceClearedStep, Act.stagedOp]

@[simp] theorem dispatchedSince_dispatched (history : List Act) (i : Nat) (op : Operation) :
    dispatchedSince (history ++ [.dispatched i op]) = dispatchedSince history ++ [op] := by
  simp [dispatchedSince, sinceClearedStep, Act.dispatchedOp]

@[simp] theorem stagedSince_cleared (history : List Act) (i : Nat) :
    stagedSince (history ++ [.cleared i]) = [] := by
  simp [stagedSince, sinceClearedStep]

@[simp] theorem dispatchedSince_cleared (history : List Act) (i : Nat) :
    dispatchedSince (history ++ [.cleared i]) = [] := by
  simp [dispatchedSince, sinceClearedStep]

theorem Once.silent {L L' : Ledger} {a : Act} (h : Once L) (ha : a.Silent)
    (hL : L'.history = L.history ++ [a]) (hs : L'.git.stagingArea = L.git.stagingArea)
    (hc : (L'.git.commits.map GitCommit.hash).Nodup) : Once L' where
  nodup := hc
  staging := by rw [hL, ha.staged, h.staging, hs]
  inOrder := by
    rw [hL]
    refine inOrder_concat h.inOrder ?_
    rw [InOrder, ha.staged, ha.dispatched]
    exact h.inOrder _ List.prefix_rfl

theorem Once.of_eq {L L' : Ledger} (h : Once L) (hL : L'.history = L.history)
    (hs : L'.git.stagingArea = L.git.stagingArea) (hc : L'.git.commits = L.git.commits) :
    Once L' where
  nodup := by
    rw [hc]
    exact h.nodup
  staging := by rw [hL, h.staging, hs]
  inOrder := by
    rw [hL]
    exact h.inOrder

theorem Once.dispatched {L : Ledger} (h : Once L) (i : Nat) {op : Operation}
    (hop : dispatchedSince L.history ++ [op] <+: L.git.stagingArea) :
    Once (L.note [.dispatched i op]) where
  nodup := h.nodup
  staging := by rw [note_history, stagedSince_dispatched, h.staging, note_git]
  inOrder := by
    refine inOrder_concat h.inOrder ?_
    rw [InOrder, stagedSince_dispatched, dispatchedSince_dispatched, h.staging]
    exact hop

variable {pf : Platform}

theorem Recorded.not_client {g g' : TradingGit} {c : Call} (h : Recorded pf g c g') :
    ¬c.isClient = true := by
  cases h <;> simp [Call.isClient]

theorem freshStep.client {W : GitWorld} {c : Call} (h : freshStep W (.call c)) :
    c.isClient = true := by
  cases c with
  | write kind expected => rfl
  | _ => exact h

theorem Started.once {W : GitWorld} {c : Call} {L' : Ledger} {t : Task}
    (hs : Started pf W.shared W.tasks.length c L' t) (hok : freshStep W (.call c))
    (h : Once W.shared) : Once L' ∧ (t.writing = true → OnceTask L' t) := by
  cases hs with
  | @added op r hf hh hm =>
    refine ⟨⟨h.nodup, ?_, ?_⟩, fun ht ↦ by cases ht⟩
    · rw [note_history, stagedSince_staged, h.staging, note_git]
    refine inOrder_concat h.inOrder ?_
    rw [InOrder, stagedSince_staged, dispatchedSince_staged]
    exact (h.inOrder _ List.prefix_rfl).trans (List.prefix_append _ _)
  | prepared hf hs hr =>
    exact ⟨h.silent (silent_prepared _ _) (note_history _ _) rfl h.nodup, fun ht ↦ by cases ht⟩
  | @pushed op rest message hash hf hs hm hh =>
    obtain ⟨hnew, hnone⟩ := hok hf hh
    have hb : Once (Ledger.note { W.shared with git := { W.shared.git with inflightWrite := true } }
        [.began W.tasks.length .push hash]) :=
      h.silent (silent_began _ _ _) (note_history _ _) rfl h.nodup
    have hd : dispatchedSince (W.shared.history ++ [.began W.tasks.length .push hash]) = [] := by
      rw [(silent_began _ _ _).dispatched]
      exact hnone rfl
    have hop : [op] <+: W.shared.git.stagingArea := by
      rw [hs]
      exact ⟨rest, rfl⟩
    have hpush := hb.dispatched W.tasks.length (by rwa [note_history, hd, List.nil_append])
    have hL : ∀ L : Ledger, (L.note [.began W.tasks.length .push hash]).note
        [.dispatched W.tasks.length op] =
          L.note [.began W.tasks.length .push hash, .dispatched W.tasks.length op] := by
      intro L
      simp [Ledger.note]
    rw [hL] at hpush
    refine ⟨hpush, fun _ ↦ ⟨hs, ?_, hnew⟩⟩
    rw [note_history, ← List.singleton_append, ← List.append_assoc, dispatchedSince_dispatched, hd]
    rfl
  | rejecting hf hne hs hm hh =>
    exact ⟨h.silent (silent_began _ _ _) (note_history _ _) rfl h.nodup, fun _ ↦ (hok hf hh).1⟩
  | recorded hr => exact absurd hok.client hr.not_client
  | settled => exact ⟨h.of_eq rfl rfl rfl, fun ht ↦ by cases ht⟩

theorem Started.onceOther {W : GitWorld} {c : Call} {L' : Ledger} {t k : Task}
    (hs : Started pf W.shared W.tasks.length c L' t) (hok : freshStep W (.call c))
    (hf : W.shared.git.inflightWrite = true) (h : OnceTask W.shared k) : OnceTask L' k := by
  cases hs with
  | settled => cases k <;> exact h
  | recorded hr => exact absurd hok.client hr.not_client
  | added hf' _ _ | prepared hf' _ _ | pushed hf' _ _ _ | rejecting hf' _ _ _ _ =>
    rw [hf] at hf'
    cases hf'

theorem Resumed.once {L L' : Ledger} {i : Nat} {t t' : Task} {a : Answer}
    (hr : Resumed L i t a L' t') (ht : t.writing = true) (h : Once L) (hJ : OnceTask L t) :
    Once L' ∧ (t'.writing = true → OnceTask L' t') := by
  cases hr with
  | @dispatched operations message hash results _ op _ r _ _ hop =>
    obtain ⟨hs, hd, hnew⟩ := hJ
    have hnext : dispatchedSince L.history ++ [op] = operations.take (results.length + 2) := by
      rw [hd, List.take_add_one (i := results.length + 1), hop, Option.toList_some]
    refine ⟨h.dispatched i ?_, fun _ ↦ ⟨hs, ?_, hnew⟩⟩
    · rw [hnext, hs]
      exact List.take_prefix _ _
    · rw [note_history, dispatchedSince_dispatched, hnext, List.length_append,
        List.length_singleton]
  | executed _ _ _ => exact ⟨h, fun _ ↦ hJ.2.2⟩
  | appended =>
    refine ⟨h.silent (silent_appended _ _) (note_history _ _) rfl ?_, fun _ ↦ trivial⟩
    rw [note_git, append_commits, List.map_append, List.nodup_append]
    refine ⟨h.nodup, List.nodup_singleton _, ?_⟩
    rintro a ha b hb rfl
    rw [List.map_singleton, List.mem_singleton] at hb
    subst hb
    exact hJ ha
  | cleared =>
    refine ⟨⟨h.nodup, ?_, inOrder_concat h.inOrder ?_⟩, fun ht ↦ by cases ht⟩
    · rw [note_history, stagedSince_cleared]
      rfl
    · rw [InOrder, dispatchedSince_cleared]
      exact List.nil_prefix
  | failed _ => exact ⟨h.of_eq rfl rfl rfl, fun ht ↦ by cases ht⟩
  | settled => cases ht

theorem onceObligations :
    Obligations (gitProg pf) inflight Task.writing freshStep Once fun L _ t ↦ OnceTask L t where
  start W c hok h _ := (start_spec pf W.shared W.tasks.length c).once hok h
  startOther W c _ _ hok _ hf _ h := (start_spec pf W.shared W.tasks.length c).onceOther hok hf h
  idle W i k r L' k' _ _ h hk hr := by
    have hs : Resumed W.shared i k r L' k' := resume_spec hr
    cases hs with
    | settled => exact ⟨h, fun ht ↦ by cases ht⟩
    | failed ht => rcases ht with rfl | rfl <;> cases hk
    | _ => cases hk
  idleOther W i k r L' k' _ _ _ _ _ _ hk hr _ h := by
    have hs : Resumed W.shared i k r L' k' := resume_spec hr
    cases hs with
    | settled => exact h
    | failed ht => rcases ht with rfl | rfl <;> cases hk
    | _ => cases hk
  owner W i k r L' k' _ _ h _ hk hJ hr := (resume_spec hr).once hk h hJ

/-- **At most once, where no failed write is repeated.**  From an object nothing
is staged in, whose log has no hash twice. -/
theorem at_most_once {g : TradingGit} (hg : Idle g) (hc : (g.commits.map GitCommit.hash).Nodup)
    {W : GitWorld} (h : Reach (gitProg pf).step freshStep (GitWorld.initial g) W) :
    AtMostOnce W.shared := by
  have h₀ : Once (GitWorld.initial g).shared := by
    refine ⟨hc, hg.staging.symm, ?_⟩
    intro l hl
    rw [List.prefix_nil.mp hl]
    exact List.nil_prefix
  have hA := (gitLock pf).assertions onceObligations hg.flag h₀ h
  refine ⟨hA.inv.inOrder, ?_⟩
  intro hash ops _
  exact List.nodup_iff_count_le_one.mp hA.inv.nodup hash

/-- A whole push of one operation is such a run. -/
theorem at_most_once_push : ∃ W : GitWorld,
    Reach (gitProg unaryPlatform).step freshStep (GitWorld.initial {}) W ∧
      W.shared.git.commits.length = 1 ∧ AtMostOnce W.shared := by
  have hprep : Reach (gitProg unaryPlatform).step freshStep (GitWorld.initial {}) _ :=
    .of_exec_of_forall _ (exec_prepare unaryPlatform .syncOrders "sync" 7) (by
      simp [freshStep, clientStep, Call.isClient])
  have hpush := reach_push hprep rfl rfl rfl rfl (unaryDigest_ne_empty _)
    fun _ _ ↦ ⟨List.not_mem_nil, fun _ ↦ rfl⟩
  have hr := hpush.trans (.of_exec_of_forall
    [.resume 2 (.reply .notObject), .resume 2 (.state {} 8), .resume 2 .persisted] rfl (by
      simp [freshStep, clientStep]))
  exact ⟨_, hr, rfl, at_most_once idle_new List.nodup_nil hr⟩

/-- **A failed push may be repeated.**  The push of one staged operation
dispatches it and fails in `getGitState`; the same push again passes its checks
and dispatches it again. -/
theorem not_at_most_once : ¬∀ (pf : Platform) (W : GitWorld),
    Reach (gitProg pf).step clientStep (GitWorld.initial {}) W → AtMostOnce W.shared := by
  intro hall
  have hprep : Reach (gitProg unaryPlatform).step clientStep (GitWorld.initial {}) _ :=
    .of_exec_of_forall _ (exec_prepare unaryPlatform .syncOrders "sync" 7) (by
      simp [clientStep, Call.isClient])
  have hpush := reach_push hprep rfl rfl rfl rfl (unaryDigest_ne_empty _) rfl
  have hfail := hpush.trans (.of_exec_of_forall
    [.resume 2 (.reply .notObject), .resume 2 (.threw "getGitState")] rfl (by simp [clientStep]))
  have hagain := reach_push hfail rfl rfl rfl rfl (unaryDigest_ne_empty _) rfl
  obtain ⟨l, hl⟩ := (hall _ _ hagain).dispatched _ List.prefix_rfl
  -- two operations dispatched, one staged
  cases hl

end OpenAlice.Trading.Git
