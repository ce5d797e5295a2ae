import OpenAlice.Trading.Git.Cases
import OpenAlice.Trading.Git.Digest

/-!
# What was approved is what is executed

A push works on a copy of the staging area taken when it passed its checks, and
between `commit` and that moment the staging area cannot change: so what a push
of `h` dispatches is what was staged when `commit` returned `h`, whatever else
runs in between.
-/

namespace OpenAlice.Trading.Git

open OpenAlice.Run TradingGit

/-! ## Reading the history -/

/-- The operation call number `i` dispatched in an act. -/
def Act.dispatchOf (i : Nat) : Act → Option Operation
  | .dispatched j op => if j = i then some op else none
  | _ => none

/-- The operations call number `i` dispatched, in order. -/
def dispatchedBy (i : Nat) (history : List Act) : List Operation :=
  history.filterMap (Act.dispatchOf i)

@[simp] theorem dispatchedBy_append (i : Nat) (l l' : List Act) :
    dispatchedBy i (l ++ l') = dispatchedBy i l ++ dispatchedBy i l' :=
  List.filterMap_append

@[simp] theorem dispatchedBy_self (i : Nat) (op : Operation) :
    dispatchedBy i [.dispatched i op] = [op] := by
  simp [dispatchedBy, Act.dispatchOf]

theorem dispatchedBy_ne {i j : Nat} (h : j ≠ i) (op : Operation) :
    dispatchedBy i [.dispatched j op] = [] := by
  simp [dispatchedBy, Act.dispatchOf, h]

/-- Acts of calls below `n` only. -/
def ActsBelow (n : Nat) (history : List Act) : Prop :=
  ∀ a ∈ history, ∀ i, (∃ kind h, a = .began i kind h) ∨ (∃ op, a = .dispatched i op) → i < n

variable {n : Nat}

theorem ActsBelow.dispatchedBy_eq_nil {history : List Act} (h : ActsBelow n history) :
    dispatchedBy n history = [] := by
  rw [dispatchedBy, List.filterMap_eq_nil_iff]
  intro a ha
  cases a with
  | dispatched j op =>
    have hj : j < n := h _ ha j (.inr ⟨op, rfl⟩)
    simp [Act.dispatchOf, Nat.ne_of_lt hj]
  | _ => rfl

/-! ## The invariant of the object -/

variable (pf : Platform)

/-- What the history says about the hashes `commit` returned. -/
structure Prepared (L : Ledger) : Prop where
  /-- Each is the hash of what was staged then. -/
  hashed : ∀ h ops, .prepared h ops ∈ L.history →
    ∃ m t p, h = pf.generateCommitHash (.operations m ops t p)
  pending : ∀ h, L.git.pendingHash = some h → .prepared h L.git.stagingArea ∈ L.history

variable {pf}

variable {acts : List Act}

/-- Acts that are no `prepared` act do not disturb what was prepared. -/
theorem Prepared.of_quiet {L L' : Ledger} (h : Prepared pf L)
    (hL : L'.history = L.history ++ acts) (hacts : ∀ hash ops, .prepared hash ops ∉ acts)
    (hp : ∀ hash, L'.git.pendingHash = some hash →
      L.git.pendingHash = some hash ∧ L'.git.stagingArea = L.git.stagingArea) :
    Prepared pf L' where
  hashed hash ops hm := by
    rw [hL, List.mem_append] at hm
    rcases hm with hm | hm
    · exact h.hashed hash ops hm
    · exact absurd hm (hacts hash ops)
  pending hash hh := by
    obtain ⟨hh, hs⟩ := hp hash hh
    rw [hL, hs]
    exact List.mem_append_left _ (h.pending hash hh)

theorem Started.keepsPrepared {L L' : Ledger} {i : Nat} {c : Call} {t : Task}
    (hs : Started pf L i c L' t) (h : Prepared pf L) : Prepared pf L' := by
  cases hs with
  | added _ hh _ =>
    refine h.of_quiet (note_history _ _) (by simp) fun hash hp ↦ ?_
    have hp : L.git.pendingHash = some hash := hp
    rw [hh] at hp
    cases hp
  | prepared _ _ hr =>
    refine ⟨?_, ?_⟩
    · intro hash ops hm
      rw [note_history, List.mem_append, List.mem_singleton] at hm
      rcases hm with hm | hm
      · exact h.hashed hash ops hm
      · cases hm
        exact ⟨_, _, _, hr⟩
    · intro hash hp
      cases hp
      exact List.mem_append_right _ (List.mem_singleton_self _)
  | pushed _ _ _ _ => exact h.of_quiet (note_history _ _) (by simp) fun _ hp ↦ ⟨hp, rfl⟩
  | rejecting _ _ _ _ _ => exact h.of_quiet (note_history _ _) (by simp) fun _ hp ↦ ⟨hp, rfl⟩
  | recorded hr =>
    obtain ⟨_, _, _, _, _, _, rfl⟩ := hr.append
    exact h.of_quiet (List.append_nil _).symm (by simp) fun _ hp ↦ ⟨hp, rfl⟩
  | settled => exact h.of_quiet (List.append_nil _).symm (by simp) fun _ hp ↦ ⟨hp, rfl⟩

theorem Resumed.keepsPrepared {L L' : Ledger} {i : Nat} {t t' : Task} {a : Answer}
    (hr : Resumed L i t a L' t') (h : Prepared pf L) : Prepared pf L' := by
  cases hr with
  | dispatched _ _ _ => exact h.of_quiet (note_history _ _) (by simp) fun _ hp ↦ ⟨hp, rfl⟩
  | executed _ _ _ => exact h
  | appended => exact h.of_quiet (note_history _ _) (by simp) fun _ hp ↦ ⟨hp, rfl⟩
  | cleared => exact h.of_quiet (note_history _ _) (by simp) fun _ hp ↦ by cases hp
  | failed _ => exact h.of_quiet (List.append_nil _).symm (by simp) fun _ hp ↦ ⟨hp, rfl⟩
  | settled => exact h

/-! ## The invariant of the calls -/

/-- Call number `i` is a push in its dispatch loop. -/
def InLoop (tasks : List Task) (i : Nat) : Prop :=
  ∃ ops m h rs, tasks[i]? = some (.executing ops m h rs)

structure Pushes (W : GitWorld) : Prop where
  below : ActsBelow W.tasks.length W.shared.history
  /-- A push in its loop has dispatched its operations up to the current one. -/
  executing : ∀ (i : Nat) ops m h rs, W.tasks[i]? = some (.executing ops m h rs) →
    .prepared h ops ∈ W.shared.history ∧ dispatchedBy i W.shared.history = ops.take (rs.length + 1)
  sameHash : ∀ (i : Nat) ops m h rs h', W.tasks[i]? = some (.executing ops m h rs) →
    .began i .push h' ∈ W.shared.history → h' = h
  finished : ∀ i h, .began i .push h ∈ W.shared.history → ¬InLoop W.tasks i →
    ∃ ops, .prepared h ops ∈ W.shared.history ∧ dispatchedBy i W.shared.history = ops

/-- An act that says nothing about a push: call number `n` may begin a reject. -/
def Act.Quiet (n : Nat) : Act → Prop
  | .dispatched .. => False
  | .began i kind _ => i = n ∧ kind ≠ .push
  | _ => True

theorem dispatchedBy_quiet (h : ∀ a ∈ acts, a.Quiet n) (i : Nat) : dispatchedBy i acts = [] := by
  rw [dispatchedBy, List.filterMap_eq_nil_iff]
  intro a ha
  cases a with
  | dispatched j op => exact (h _ ha).elim
  | _ => rfl

theorem began_of_quiet {history acts : List Act} (hacts : ∀ a ∈ acts, a.Quiet n)
    {i : Nat} {h : CommitHash} (hb : .began i .push h ∈ history ++ acts) :
    .began i .push h ∈ history := by
  rcases List.mem_append.mp hb with hb | hb
  · exact hb
  · exact absurd rfl (hacts _ hb).2

variable {W : GitWorld}

theorem Pushes.call_quiet (h : Pushes W) {L' : Ledger} {t : Task}
    (hL : L'.history = W.shared.history ++ acts)
    (hacts : ∀ a ∈ acts, a.Quiet W.tasks.length)
    (ht : ∀ ops m hash rs, t ≠ .executing ops m hash rs) : Pushes ⟨L', W.tasks ++ [t]⟩ := by
  have hold : ∀ (i : Nat) ops m hash rs, (W.tasks ++ [t])[i]? = some (.executing ops m hash rs) →
        W.tasks[i]? = some (.executing ops m hash rs) := by
    intro i ops m hash rs hi
    rcases World.task_append hi with hi | ⟨_, he⟩
    · exact hi
    · exact absurd he.symm (ht ops m hash rs)
  refine ⟨?_, ?_, ?_, ?_⟩
  · intro a ha i hi
    rw [hL, List.mem_append] at ha
    rw [List.length_append, List.length_singleton]
    rcases ha with ha | ha
    · exact Nat.lt_succ_of_lt (h.below a ha i hi)
    have hq := hacts a ha
    rcases hi with ⟨kind, hash, rfl⟩ | ⟨op, rfl⟩
    · rw [hq.1]
      exact Nat.lt_succ_self _
    · exact hq.elim
  · intro i ops m hash rs hi
    obtain ⟨hm, hd⟩ := h.executing i ops m hash rs (hold i ops m hash rs hi)
    rw [hL, dispatchedBy_append, dispatchedBy_quiet hacts, List.append_nil]
    exact ⟨List.mem_append_left _ hm, hd⟩
  · intro i ops m hash rs hash' hi hb
    rw [hL] at hb
    exact h.sameHash i ops m hash rs hash' (hold i ops m hash rs hi) (began_of_quiet hacts hb)
  · intro i hash hb hno
    rw [hL] at hb ⊢
    have hb := began_of_quiet hacts hb
    have hlt : i < W.tasks.length := h.below _ hb i (.inl ⟨_, _, rfl⟩)
    obtain ⟨ops, hm, hd⟩ := h.finished i hash hb fun ⟨ops, m, hash', rs, hi⟩ ↦
      hno ⟨ops, m, hash', rs, (List.getElem?_append_left hlt).trans hi⟩
    rw [dispatchedBy_append, dispatchedBy_quiet hacts, List.append_nil]
    exact ⟨ops, List.mem_append_left _ hm, hd⟩

variable {hash : CommitHash}

theorem Pushes.call_push (h : Pushes W) {g : TradingGit} {op : Operation}
    {rest : List Operation} {message : String}
    (hp : .prepared hash (op :: rest) ∈ W.shared.history) :
    Pushes ⟨Ledger.note { W.shared with git := g }
        [.began W.tasks.length .push hash, .dispatched W.tasks.length op],
      W.tasks ++ [.executing (op :: rest) message hash []]⟩ := by
  have hother : ∀ i, i ≠ W.tasks.length →
      dispatchedBy i [.began W.tasks.length .push hash, .dispatched W.tasks.length op] = [] := by
    intro i hi
    simp [dispatchedBy, List.filterMap_cons, Act.dispatchOf, Ne.symm hi]
  have hbegan : ∀ i hash', Act.began i .push hash' ∈ W.shared.history ++
      [.began W.tasks.length .push hash, .dispatched W.tasks.length op] →
        .began i .push hash' ∈ W.shared.history ∧ i < W.tasks.length ∨
          i = W.tasks.length ∧ hash' = hash := by
    intro i hash' hb
    rw [List.mem_append] at hb
    rcases hb with hb | hb
    · exact .inl ⟨hb, h.below _ hb i (.inl ⟨_, _, rfl⟩)⟩
    · simp only [List.mem_cons, Act.began.injEq, List.not_mem_nil, or_false, reduceCtorEq] at hb
      exact .inr ⟨hb.1, hb.2.2⟩
  refine ⟨?_, ?_, ?_, ?_⟩
  · intro a ha i hi
    rw [note_history, List.mem_append] at ha
    rw [List.length_append, List.length_singleton]
    rcases ha with ha | ha
    · exact Nat.lt_succ_of_lt (h.below a ha i hi)
    simp only [List.mem_cons, List.not_mem_nil, or_false] at ha
    rcases ha with rfl | rfl <;> rcases hi with ⟨_, _, hi⟩ | ⟨_, hi⟩ <;> cases hi <;>
      exact Nat.lt_succ_self _
  · intro i ops m hash' rs hi
    rw [note_history, dispatchedBy_append]
    rcases World.task_append hi with hi | ⟨rfl, he⟩
    · obtain ⟨hm, hd⟩ := h.executing i ops m hash' rs hi
      have hne : i ≠ W.tasks.length := Nat.ne_of_lt (List.getElem?_eq_some_iff.mp hi).1
      rw [hother i hne, List.append_nil]
      exact ⟨List.mem_append_left _ hm, hd⟩
    · cases he
      rw [h.below.dispatchedBy_eq_nil]
      exact ⟨List.mem_append_left _ hp, by simp [dispatchedBy, List.filterMap_cons, Act.dispatchOf]⟩
  · intro i ops m hash' rs hash'' hi hb
    rw [note_history] at hb
    rcases World.task_append hi with hi | ⟨rfl, he⟩
    · rcases hbegan i hash'' hb with ⟨hb, _⟩ | ⟨rfl, _⟩
      · exact h.sameHash i ops m hash' rs hash'' hi hb
      · exact absurd (List.getElem?_eq_some_iff.mp hi).1 (Nat.lt_irrefl _)
    · cases he
      rcases hbegan _ hash'' hb with ⟨_, hlt⟩ | ⟨_, he⟩
      · exact absurd hlt (Nat.lt_irrefl _)
      · exact he
  · intro i hash' hb hno
    rw [note_history] at hb ⊢
    rcases hbegan i hash' hb with ⟨hb, hlt⟩ | ⟨rfl, _⟩
    · obtain ⟨ops, hm, hd⟩ := h.finished i hash' hb fun ⟨ops, m, hash'', rs, hi⟩ ↦
        hno ⟨ops, m, hash'', rs, (List.getElem?_append_left hlt).trans hi⟩
      rw [dispatchedBy_append, hother i (Nat.ne_of_lt hlt), List.append_nil]
      exact ⟨ops, List.mem_append_left _ hm, hd⟩
    · exact absurd ⟨op :: rest, message, hash, [], by simp⟩ hno

theorem Pushes.resume_quiet (h : Pushes W) {L' : Ledger} {t t' : Task} (hn : W.tasks[n]? = some t)
    (hL : L'.history = W.shared.history ++ acts)
    (hacts : ∀ a ∈ acts, ∀ m, a.Quiet m) (ht : ∀ ops m hash rs, t ≠ .executing ops m hash rs)
    (ht' : ∀ ops m hash rs, t' ≠ .executing ops m hash rs) :
    Pushes ⟨L', W.tasks.set n t'⟩ := by
  have hq : ∀ a ∈ acts, a.Quiet 0 := fun a ha ↦ hacts a ha 0
  have hold : ∀ (i : Nat) ops m hash rs, (W.tasks.set n t')[i]? = some (.executing ops m hash rs) →
        W.tasks[i]? = some (.executing ops m hash rs) := by
    intro i ops m hash rs hi
    rcases World.task_set hi with ⟨_, he⟩ | ⟨_, hi⟩
    · exact absurd he.symm (ht' ops m hash rs)
    · exact hi
  refine ⟨?_, ?_, ?_, ?_⟩
  · intro a ha i hi
    rw [List.length_set]
    rw [hL, List.mem_append] at ha
    rcases ha with ha | ha
    · exact h.below a ha i hi
    have h0 := hacts a ha 0
    rcases hi with ⟨kind, hash, rfl⟩ | ⟨op, rfl⟩
    · exact absurd (h0.1.symm.trans (hacts _ ha 1).1) (by simp)
    · exact h0.elim
  · intro i ops m hash rs hi
    obtain ⟨hm, hd⟩ := h.executing i ops m hash rs (hold i ops m hash rs hi)
    rw [hL, dispatchedBy_append, dispatchedBy_quiet hq, List.append_nil]
    exact ⟨List.mem_append_left _ hm, hd⟩
  · intro i ops m hash rs hash' hi hb
    rw [hL] at hb
    exact h.sameHash i ops m hash rs hash' (hold i ops m hash rs hi) (began_of_quiet hq hb)
  · intro i hash hb hno
    rw [hL] at hb ⊢
    obtain ⟨ops, hm, hd⟩ := h.finished i hash (began_of_quiet hq hb)
      fun ⟨ops, m, hash', rs, hi⟩ ↦ hno ⟨ops, m, hash', rs, by
        have hne : n ≠ i := by
          rintro rfl
          exact ht ops m hash' rs (Option.some.inj (hn.symm.trans hi))
        exact (List.getElem?_set_ne hne).trans hi⟩
    rw [dispatchedBy_append, dispatchedBy_quiet hq, List.append_nil]
    exact ⟨ops, List.mem_append_left _ hm, hd⟩

theorem Pushes.resume_dispatched (h : Pushes W) {ops : List Operation}
    {m : String} {rs : List OperationResult} {op : Operation}
    {r : OperationResult} (hn : W.tasks[n]? = some (.executing ops m hash rs))
    (hop : ops[rs.length + 1]? = some op) :
    Pushes ⟨W.shared.note [.dispatched n op],
      W.tasks.set n (.executing ops m hash (rs ++ [r]))⟩ := by
  have hlt : n < W.tasks.length := (List.getElem?_eq_some_iff.mp hn).1
  have hbegan : ∀ i hash', Act.began i .push hash' ∈ W.shared.history ++ [.dispatched n op] →
      .began i .push hash' ∈ W.shared.history := by
    intro i hash' hb
    simpa using hb
  refine ⟨?_, ?_, ?_, ?_⟩
  · intro a ha i hi
    rw [List.length_set]
    rw [note_history, List.mem_append, List.mem_singleton] at ha
    rcases ha with ha | rfl
    · exact h.below a ha i hi
    · rcases hi with ⟨_, _, hi⟩ | ⟨_, hi⟩ <;> cases hi
      exact hlt
  · intro i ops' m' hash' rs' hi
    rw [note_history, dispatchedBy_append]
    rcases World.task_set hi with ⟨rfl, he⟩ | ⟨hne, hi⟩
    · cases he
      obtain ⟨hm, hd⟩ := h.executing _ _ _ _ _ hn
      refine ⟨List.mem_append_left _ hm, ?_⟩
      rw [hd, dispatchedBy_self, List.length_append, List.length_singleton,
        List.take_add_one (i := rs.length + 1), hop, Option.toList_some]
    · obtain ⟨hm, hd⟩ := h.executing i ops' m' hash' rs' hi
      rw [dispatchedBy_ne (Ne.symm hne), List.append_nil]
      exact ⟨List.mem_append_left _ hm, hd⟩
  · intro i ops' m' hash' rs' hash'' hi hb
    have hb' := hbegan i hash'' hb
    rcases World.task_set hi with ⟨rfl, he⟩ | ⟨_, hi⟩
    · cases he
      exact h.sameHash _ _ _ _ _ _ hn hb'
    · exact h.sameHash i ops' m' hash' rs' hash'' hi hb'
  · intro i hash' hb hno
    have hne : n ≠ i := by
      rintro rfl
      exact hno ⟨ops, m, hash, rs ++ [r], List.getElem?_set_self hlt⟩
    obtain ⟨ops', hm, hd⟩ := h.finished i hash' (hbegan i hash' hb)
      fun ⟨ops', m', hash'', rs', hi⟩ ↦
        hno ⟨ops', m', hash'', rs', (List.getElem?_set_ne hne).trans hi⟩
    rw [note_history, dispatchedBy_append, dispatchedBy_ne hne, List.append_nil]
    exact ⟨ops', List.mem_append_left _ hm, hd⟩

theorem Pushes.resume_executed (h : Pushes W) {ops : List Operation}
    {m : String} {rs : List OperationResult} {p : Pending}
    (hn : W.tasks[n]? = some (.executing ops m hash rs)) (hlen : ops.length = rs.length + 1) :
    Pushes ⟨W.shared, W.tasks.set n (.snapshotting p)⟩ := by
  refine ⟨?_, ?_, ?_, ?_⟩
  · intro a ha i hi
    rw [List.length_set]
    exact h.below a ha i hi
  · intro i ops' m' hash' rs' hi
    rcases World.task_set hi with ⟨_, he⟩ | ⟨_, hi⟩
    · cases he
    · exact h.executing i ops' m' hash' rs' hi
  · intro i ops' m' hash' rs' hash'' hi hb
    rcases World.task_set hi with ⟨_, he⟩ | ⟨_, hi⟩
    · cases he
    · exact h.sameHash i ops' m' hash' rs' hash'' hi hb
  · intro i hash' hb hno
    by_cases hne : n = i
    · subst hne
      obtain ⟨hm, hd⟩ := h.executing _ _ _ _ _ hn
      cases h.sameHash _ _ _ _ _ _ hn hb
      exact ⟨ops, hm, hd.trans (List.take_of_length_le (by omega))⟩
    · exact h.finished i hash' hb fun ⟨ops', m', hash'', rs', hi⟩ ↦
        hno ⟨ops', m', hash'', rs', (List.getElem?_set_ne hne).trans hi⟩

theorem step_pushes {W W' : GitWorld} {e : GitEvent} (hp : Prepared pf W.shared) (h : Pushes W)
    (hst : (gitProg pf).step W e = some W') : Pushes W' := by
  cases e with
  | call c =>
    cases Prog.step_call hst
    change Pushes ⟨(start pf W.shared W.tasks.length c).1,
      W.tasks ++ [(start pf W.shared W.tasks.length c).2]⟩
    have hs := start_spec pf W.shared W.tasks.length c
    generalize start pf W.shared W.tasks.length c = q at hs ⊢
    obtain ⟨L', t⟩ := q
    cases hs with
    | added _ _ _ => exact h.call_quiet (note_history _ _) (by simp [Act.Quiet]) (by simp)
    | prepared _ _ _ => exact h.call_quiet (note_history _ _) (by simp [Act.Quiet]) (by simp)
    | pushed _ hs _ hh =>
      have hm := hp.pending _ hh
      rw [hs] at hm
      exact h.call_push hm
    | rejecting _ _ _ _ _ =>
      exact h.call_quiet (note_history _ _) (by simp [Act.Quiet]) (by simp)
    | recorded _ => exact h.call_quiet (List.append_nil _).symm (by simp) (by simp)
    | settled => exact h.call_quiet (List.append_nil _).symm (by simp) (by simp)
  | resume n a =>
    obtain ⟨t, L', t', hn, hr, rfl⟩ := Prog.step_resume hst
    have hs := resume_spec hr
    cases hs with
    | dispatched _ _ hop => exact h.resume_dispatched hn hop
    | executed _ _ hlen => exact h.resume_executed hn hlen
    | appended =>
      exact h.resume_quiet hn (note_history _ _) (by simp [Act.Quiet]) (by simp) (by simp)
    | cleared =>
      exact h.resume_quiet hn (note_history _ _) (by simp [Act.Quiet]) (by simp) (by simp)
    | failed ht =>
      exact h.resume_quiet hn (List.append_nil _).symm (by simp)
        (by rcases ht with rfl | rfl <;> simp) (by simp)
    | settled => exact h.resume_quiet hn (List.append_nil _).symm (by simp) (by simp) (by simp)

theorem pushes_of_reach {g : TradingGit} (hg : Idle g) {ok : GitWorld → GitEvent → Prop}
    (h : Reach (gitProg pf).step ok (GitWorld.initial g) W) :
    Prepared pf W.shared ∧ Pushes W := by
  refine h.invariant (I := fun W ↦ Prepared pf W.shared ∧ Pushes W) ⟨?_, ?_⟩ ?_
  · exact ⟨by simp [GitWorld.initial], by simp [GitWorld.initial, hg.hash]⟩
  · exact ⟨by simp [GitWorld.initial, ActsBelow], by simp [GitWorld.initial],
      by simp [GitWorld.initial], by simp [GitWorld.initial]⟩
  · intro W e W' ⟨hp, hP⟩ _ hst
    refine ⟨?_, step_pushes hp hP hst⟩
    cases e with
    | call c =>
      cases Prog.step_call hst
      exact (start_spec pf W.shared W.tasks.length c).keepsPrepared hp
    | resume i a =>
      obtain ⟨t, L', t', _, hr, rfl⟩ := Prog.step_resume hst
      exact (resume_spec hr).keepsPrepared hp

/-! ## The theorem -/

/-- An `add` or a `commit`. -/
inductive Call.Prepares : Call → Prop
  | add (op : Operation) : Prepares (.add op)
  | commit (message : String) (now : Timestamp) : Prepares (.commit message now)

variable (pf) in
structure ApprovedIsExecuted (W : GitWorld) : Prop where
  /-- A push of `h` that passed its checks works on a hash `commit` returned. -/
  approved : ∀ i h, .began i .push h ∈ W.shared.history → ∃ ops, .prepared h ops ∈ W.shared.history
  /-- It has dispatched the operations staged when `commit` returned `h`, in
  order, up to where it is. -/
  inOrder : ∀ i h ops, .began i .push h ∈ W.shared.history → .prepared h ops ∈ W.shared.history →
    dispatchedBy i W.shared.history <+: ops
  /-- It has dispatched all of them once it left its loop. -/
  exact : ∀ i h ops, .began i .push h ∈ W.shared.history → .prepared h ops ∈ W.shared.history →
    ¬InLoop W.tasks i → dispatchedBy i W.shared.history = ops
  /-- No two writes run at the same time. -/
  alone : ∀ (i j : Nat) t t', W.tasks[i]? = some t → W.tasks[j]? = some t' →
    t.writing = true → t'.writing = true → i = j
  /-- While a write runs, `add` and `commit` are refused and change nothing. -/
  refused : ∀ (i : Nat) t c, W.tasks[i]? = some t → t.writing = true → c.Prepares →
    (gitProg pf).step W (.call c) = some ⟨W.shared, W.tasks ++
      [.done (.threw (.pendingHashConflict "A wallet write is already in progress"))]⟩

/-- With the flag set, `add` and `commit` are refused. -/
theorem start_refused {L : Ledger} (hf : L.git.inflightWrite = true) (i : Nat) {c : Call}
    (hc : c.Prepares) : start pf L i c =
      (L, .done (.threw (.pendingHashConflict "A wallet write is already in progress"))) := by
  cases hc with
  | add op => simp [start, TradingGit.add, hf]
  | commit message now => simp [start, TradingGit.commit, hf]

theorem Prepared.same {L : Ledger} (h : Prepared pf L)
    (hinj : Function.Injective pf.generateCommitHash)
    {ops ops' : List Operation} (hm : .prepared hash ops ∈ L.history)
    (hm' : .prepared hash ops' ∈ L.history) : ops = ops' := by
  obtain ⟨m, t, p, he⟩ := h.hashed hash ops hm
  obtain ⟨m', t', p', he'⟩ := h.hashed hash ops' hm'
  have hc := hinj (he.symm.trans he')
  cases hc
  rfl

/-- **What was approved is what is executed.**  Under every interleaving of the
methods and every answer of the callbacks, if distinct contents have distinct
hashes. -/
theorem approved_is_executed (hinj : Function.Injective pf.generateCommitHash) {g : TradingGit}
    (hg : Idle g) {W : GitWorld}
    (h : Reach (gitProg pf).step anyStep (GitWorld.initial g) W) : ApprovedIsExecuted pf W := by
  obtain ⟨hp, hP⟩ := pushes_of_reach hg h
  have hx : Exclusive inflight Task.writing W := exclusive_of_reach hg.flag h
  -- what a push dispatched, against the operations some `commit` fixed for it
  have hloop : ∀ i hash, .began i .push hash ∈ W.shared.history → ∃ ops,
      .prepared hash ops ∈ W.shared.history ∧ dispatchedBy i W.shared.history <+: ops ∧
        (¬InLoop W.tasks i → dispatchedBy i W.shared.history = ops) := by
    intro i hash hb
    by_cases hl : InLoop W.tasks i
    · obtain ⟨ops, m, hash', rs, hi⟩ := hl
      cases hP.sameHash i ops m hash' rs hash hi hb
      obtain ⟨hm, hd⟩ := hP.executing i ops m hash rs hi
      refine ⟨ops, hm, ?_, fun hno ↦ absurd ⟨ops, m, hash, rs, hi⟩ hno⟩
      rw [hd]
      exact List.take_prefix _ _
    · obtain ⟨ops, hm, hd⟩ := hP.finished i hash hb hl
      exact ⟨ops, hm, hd ▸ List.prefix_rfl, fun _ ↦ hd⟩
  refine ⟨?_, ?_, ?_, hx.unique, ?_⟩
  · intro i hash hb
    obtain ⟨ops, hm, _⟩ := hloop i hash hb
    exact ⟨ops, hm⟩
  · intro i hash ops hb hm
    obtain ⟨ops', hm', hd, _⟩ := hloop i hash hb
    rwa [hp.same hinj hm hm']
  · intro i hash ops hb hm hno
    obtain ⟨ops', hm', _, hd⟩ := hloop i hash hb
    rw [hp.same hinj hm hm']
    exact hd hno
  · intro i t c hi ht hc
    have hs : start pf W.shared W.tasks.length c = _ :=
      start_refused (hx.held_of_active i t hi ht) W.tasks.length hc
    simp only [Prog.step, gitProg, hs]

/-- With a digest that has no collisions, a push that is waiting for its only
operation has dispatched what was approved. -/
theorem approved_is_executed_unary : ∃ W : GitWorld,
    Reach (gitProg unaryPlatform).step anyStep (GitWorld.initial {}) W ∧
      W.tasks.length = 3 ∧ ApprovedIsExecuted unaryPlatform W := by
  have hprep := Reach.of_exec _ (exec_prepare unaryPlatform .syncOrders "sync" 7)
  have hr := reach_push hprep rfl rfl rfl rfl (unaryDigest_ne_empty _) trivial
  exact ⟨_, hr, rfl, approved_is_executed unaryDigest_injective idle_new hr⟩

end OpenAlice.Trading.Git
