import OpenAlice.Trading.Account.OrderEntry

/-!
# A one-shot order executes its own operation only

The one-shot order shares the staging area with everything else: what was staged before it is
committed and pushed together with its own operation, and when the push is refused the commit
stays behind.  So it executes its own operation only, and leaves nothing behind when it fails,
exactly when nothing was staged and the account lets pushes in, or when its operation is not
staged at all (`ownOrderOnly_iff`).
-/

namespace OpenAlice.Trading.OrderEntry

open OpenAlice.Run OpenAlice.Trading.Git OpenAlice.Trading.Push TradingGit

/-! ## What a stretch does to the ledger -/

/-- Everything a stretch of call number `i` can do to the ledger of the account. -/
inductive Moves (pf : Platform) (i : Nat) : Ledger → Ledger → Prop
  | same {L : Ledger} : Moves pf i L L
  | started {L : Ledger} {c : Call} : Moves pf i L (Git.start pf L i c).1
  | resumed {L L' : Ledger} {t t' : Task} {a : Answer} (h : Git.resume L i t a = some (L', t')) :
      Moves pf i L L'

variable {pf : Platform}

theorem Moves.dispatchedBy_ne {i j : Nat} (hij : i ≠ j) {L L' : Ledger} (h : Moves pf i L L') :
    dispatchedBy j L'.history = dispatchedBy j L.history := by
  cases h with
  | same => rfl
  | @started c =>
    have hs := start_spec pf L i c
    generalize Git.start pf L i c = q at hs ⊢
    obtain ⟨L', t⟩ := q
    cases hs with
    | pushed => simp [dispatchedBy, Act.dispatchOf, hij]
    | _ => simp [dispatchedBy, Act.dispatchOf]
  | resumed h =>
    cases resume_spec h with
    | dispatched => simp [dispatchedBy, Act.dispatchOf, hij]
    | _ => simp [dispatchedBy, Act.dispatchOf]

variable (cfg : PushConfig)

theorem perform_ledger (A : Account) (i : Nat) (l : Loop) (op : Operation) :
    (perform A i l op).1.ledger = A.ledger := by
  unfold perform
  split
  · split <;> rfl
  all_goals rfl

theorem dispatcher_ledger (A : Account) (i : Nat) (l : Loop) (op : Operation) :
    (dispatcher cfg A i l op).1.ledger = A.ledger := by
  unfold dispatcher
  split_ifs
  · rfl
  · rfl
  · exact perform_ledger A i l op

theorem guardPipeline_ledger (A : Account) (i : Nat) (l : Loop) (op : Operation) :
    (guardPipeline cfg A i l op).1.ledger = A.ledger := by
  unfold guardPipeline
  split_ifs
  · rfl
  · exact dispatcher_ledger cfg A i l op

theorem follow_ledger (A : Account) (i : Nat) (task : Task) :
    (follow cfg A i task).1.ledger = A.ledger := by
  unfold follow
  split
  · split
    · exact guardPipeline_ledger cfg A i _ _
    · rfl
  · rfl
  · rfl

theorem enterPush_moves (A : Account) (i : Nat) (expected : String) :
    Moves cfg.toPlatform i A.ledger (enterPush cfg A i expected).1.ledger := by
  unfold enterPush
  split_ifs
  · exact .same
  · exact .same
  · exact .same
  · rw [follow_ledger]
    exact .started

variable {i : Nat} {A A' : Account}

theorem answer_moves {task : Task} {a : Answer} {st : Stage}
    (h : answer cfg A i task a = some (A', st)) : Moves cfg.toPlatform i A.ledger A'.ledger := by
  obtain ⟨q, hq, he⟩ := Option.map_eq_some_iff.mp h
  have hledger := follow_ledger cfg { A with ledger := q.1 } i q.2
  rw [he] at hledger
  change A'.ledger = q.1 at hledger
  rw [hledger]
  exact .resumed hq

variable {st st' : Stage}

theorem advance_moves {automated : Bool}
    {a : PushAnswer} (h : advance cfg A i automated st a = some (A', st')) :
    Moves cfg.toPlatform i A.ledger A'.ledger := by
  cases advance_spec h with
  | settled => exact .same
  | @admitted e _ _ he =>
    have hm := enterPush_moves cfg { A with automatedPushActive := true } i e
    rw [he] at hm
    exact hm
  | @dispatched l op _ _ _ hd =>
    have hl := dispatcher_ledger cfg A i l op
    rw [hd] at hl
    change A'.ledger = A.ledger at hl
    rw [hl]
    exact .same
  | @checked l op _ _ _ hp =>
    have hl := perform_ledger (A.note i (.passed op)) i l op
    rw [hp] at hl
    change A'.ledger = A.ledger at hl
    rw [hl]
    exact .same
  | closed => exact .same
  | answered _ h => exact answer_moves cfg h
  | wrote h => exact answer_moves cfg h
  | finished h =>
    rw [(settle_spec h).1]
    exact .same
  | ledger hr => exact .resumed hr

theorem start_moves (A : Account) (i : Nat) (c : AccountCall) :
    Moves cfg.toPlatform i A.ledger (Push.start cfg A i c).1.ledger := by
  cases c with
  | push expected automated =>
    cases automated with
    | false => exact enterPush_moves cfg A i expected
    | true =>
      unfold Push.start
      split_ifs <;> exact .same
  | ledger c => exact .started
  | health disabled offline => exact .same

/-! ## Staging and committing -/

/-- A ledger with nothing running and nothing pending. -/
structure Free (g : TradingGit) : Prop where
  inflightWrite : g.inflightWrite = false
  pendingHash : g.pendingHash = none
  pendingMessage : g.pendingMessage = none

theorem add_of_free {g : TradingGit} (h : Free g) (op : Operation) : g.add op =
      .ok ({ g with stagingArea := g.stagingArea ++ [op] }, ⟨g.stagingArea.length, op⟩) := by
  rw [add, h.inflightWrite, h.pendingHash, h.pendingMessage]
  rfl

theorem add_of_not_free {g : TradingGit} (h : ¬ Free g) (op : Operation) :
    ∃ e, g.add op = .error e := by
  cases hadd : g.add op with
  | error e => exact ⟨e, rfl⟩
  | ok q =>
    obtain ⟨hf, hh, hm, -⟩ := add_ok hadd
    exact absurd ⟨hf, hh, hm⟩ h

def Refuses (A : EntryAccount) : StageCallback → Prop
  | .throws .. => True
  | .stages .. => ¬ Free A.git

theorem stage_of_refuses {A : EntryAccount} {stage : StageCallback} (h : Refuses A stage) :
    ∃ A' e, A.stage stage = (A', .error e) ∧ A'.account = A.account := by
  cases stage with
  | throws sub text => exact ⟨_, _, rfl, rfl⟩
  | stages sub op =>
    obtain ⟨e, he⟩ := add_of_not_free h op
    have hadd : (A.chose sub).git.add op = .error e := he
    refine ⟨A.chose sub, e, ?_, rfl⟩
    simp only [EntryAccount.stage, hadd]

theorem stage_of_not_refuses {A : EntryAccount} {stage : StageCallback} (h : ¬ Refuses A stage) :
    ∃ op ids, stage.operations = [op] ∧ Free A.git ∧ A.stage stage =
        (A.acted { A.git with stagingArea := A.git.stagingArea ++ [op] } (.staged op) ids,
          .ok ()) := by
  cases stage with
  | throws sub text => exact absurd trivial h
  | stages sub op =>
    have hfree : Free A.git := not_not.mp h
    refine ⟨op, (A.chose sub).stagedSubAccountIds, rfl, hfree, ?_⟩
    have hadd : (A.chose sub).git.add op = _ := add_of_free hfree op
    simp only [EntryAccount.stage, hadd]
    rfl

theorem commit_of_staged (pf : Platform) {A : EntryAccount} (hf : A.git.inflightWrite = false)
    (hs : A.git.stagingArea ≠ []) (message : String) (now : Timestamp) :
    ∃ text content r, r.hash = pf.generateCommitHash content ∧ A.commit pf message now =
        (A.acted { A.git with pendingHash := some r.hash, pendingMessage := some text }
          (.prepared r.hash A.git.stagingArea) [], .ok r) := by
  have hcommit : ∃ q, A.git.commit pf (A.stampSubAccount message) now = .ok q := by
    rw [TradingGit.commit, hf, if_neg Bool.false_ne_true, if_neg hs]
    exact ⟨_, rfl⟩
  obtain ⟨⟨g, r⟩, hq⟩ := hcommit
  obtain ⟨-, -, hr, rfl⟩ := commit_ok hq
  refine ⟨A.stampSubAccount message, _, r, hr, ?_⟩
  rw [EntryAccount.commit, hq]

theorem enterPush_of_not_open {A : Account} (h : ¬ Open cfg A) (i : Nat) (expected : String) :
    ∃ e, enterPush cfg A i expected = (A, .done (.threw e)) := by
  unfold enterPush
  split_ifs with hr hd ho
  · exact ⟨_, rfl⟩
  · exact ⟨_, rfl⟩
  · exact ⟨_, rfl⟩
  · refine absurd ⟨?_, ?_, ?_⟩ h
    · rwa [← Bool.not_eq_true]
    · rwa [← Bool.not_eq_true]
    · rwa [← Bool.not_eq_true]

theorem enterPush_of_open {A : Account} (h : Open cfg A) {first : Operation}
    {rest : List Operation} {message : String} {hash : CommitHash}
    (hf : A.ledger.git.inflightWrite = false) (hs : A.ledger.git.stagingArea = first :: rest)
    (hm : A.ledger.git.pendingMessage = some message)
    (hh : A.ledger.git.pendingHash = some hash) (hne : hash ≠ "") (i : Nat) :
    ∃ B : Account,
      B.ledger.history = A.ledger.history ++ [.began i .push hash, .dispatched i first] ∧
      enterPush cfg A i hash = guardPipeline cfg B i ⟨first :: rest, message, hash, []⟩ first := by
  have hopen := openWrite_of .push hf (List.cons_ne_nil first rest) hs hm hh hne
  have hstart : Git.start cfg.toPlatform A.ledger i (.push hash) =
      startWrite A.ledger i .push { A.ledger.git with inflightWrite := true } (first :: rest)
        message hash := by
    simp only [Git.start]
    rw [hopen]
  obtain ⟨hr, hd, ho⟩ := h
  refine ⟨{ A with ledger :=
    (startWrite A.ledger i .push { A.ledger.git with inflightWrite := true } (first :: rest) message
      hash).1 }, rfl, ?_⟩
  unfold enterPush
  rw [hr, hd, ho, if_neg Bool.false_ne_true, if_neg Bool.false_ne_true, if_neg Bool.false_ne_true]
  rw [hstart]
  rfl

/-! ## The first stretch of a one-shot order -/

/-- What call number `j` has dispatched. -/
def dispatchedIn (A : EntryAccount) (j : Nat) : List Operation :=
  dispatchedBy j A.account.ledger.history

theorem acted_dispatchedIn (A : EntryAccount) (g : TradingGit) {act : Act} {j : Nat}
    (h : act.dispatchOf j = none) (ids : List String) :
    dispatchedIn (A.acted g act ids) j = dispatchedIn A j := by
  have hact : dispatchedBy j [act] = [] := by
    rw [dispatchedBy, List.filterMap_cons_none h, List.filterMap_nil]
  rw [dispatchedIn, EntryAccount.acted, note_history, dispatchedBy_append, hact, List.append_nil]
  rfl

theorem stage_dispatchedIn (A : EntryAccount) (stage : StageCallback) (j : Nat) :
    dispatchedIn (A.stage stage).1 j = dispatchedIn A j := by
  by_cases hr : Refuses A stage
  · obtain ⟨A', e, hstage, hA⟩ := stage_of_refuses hr
    rw [hstage, dispatchedIn, hA, dispatchedIn]
  obtain ⟨op, ids, -, -, hstage⟩ := stage_of_not_refuses hr
  rw [hstage]
  exact acted_dispatchedIn A _ rfl ids

theorem commit_dispatchedIn (A : EntryAccount) (message : String) (now : Timestamp) (j : Nat) :
    dispatchedIn (A.commit pf message now).1 j = dispatchedIn A j := by
  unfold EntryAccount.commit
  split
  · exact acted_dispatchedIn A _ rfl []
  · rfl

/-- Everything the first stretch of a one-shot order can do. -/
inductive Entered (A : EntryAccount) (i : Nat) (stage : StageCallback) :
    EntryAccount → EntryTask → Prop
  /-- Nothing was staged. -/
  | refused {A' : EntryAccount} {text : String} (hr : Refuses A stage)
      (hA : A'.account = A.account) : Entered A i stage A' (.failed .stage text)
  | left {A' : EntryAccount} {e : GitError} {op : Operation} (hr : ¬ Refuses A stage)
      (hopen : ¬ Open cfg A.account) (hop : stage.operations = [op])
      (hs : A'.git.stagingArea = A.git.stagingArea ++ [op])
      (hd : ∀ j, dispatchedIn A' j = dispatchedIn A j) :
      Entered A i stage A' (.pushing (.done (.threw e)))
  | entered {A' : EntryAccount} {B : Account} {l : Loop} {op first : Operation}
      {rest : List Operation} (hr : ¬ Refuses A stage) (hopen : Open cfg A.account)
      (hop : stage.operations = [op]) (hfirst : A.git.stagingArea ++ [op] = first :: rest)
      (hl : l.operations = first :: rest) (hresults : l.results = [])
      (hA : A'.account = (guardPipeline cfg B i l first).1)
      (hd : ∀ j, dispatchedIn A' j = dispatchedIn A j ++ if i = j then [first] else []) :
      Entered A i stage A' (.pushing (guardPipeline cfg B i l first).2)

/-- An operation that is staged is committed with all that was staged before it. -/
theorem executeOneShotOrder_of_not_refuses (hhash : ∀ content, cfg.generateCommitHash content ≠ "")
    {A : EntryAccount} {stage : StageCallback} (h : ¬ Refuses A stage) (i : Nat) (message : String)
    (now : Timestamp) :
    ∃ (A' : EntryAccount) (op : Operation) (text : String) (hash : CommitHash),
      stage.operations = [op] ∧ A'.git.inflightWrite = false ∧
      A'.git.stagingArea = A.git.stagingArea ++ [op] ∧ A'.git.pendingMessage = some text ∧
      A'.git.pendingHash = some hash ∧ hash ≠ "" ∧
      (Open cfg A'.account ↔ Open cfg A.account) ∧
      (∀ j, dispatchedIn A' j = dispatchedIn A j) ∧
      executeOneShotOrder cfg A i stage message now =
        ({ A' with account := (enterPush cfg A'.account i hash).1 },
          .pushing (enterPush cfg A'.account i hash).2) := by
  obtain ⟨op, ids, hop, hfree, hstage⟩ := stage_of_not_refuses h
  generalize hA₁ : A.acted { A.git with stagingArea := A.git.stagingArea ++ [op] } (.staged op) ids
    = A₁ at hstage
  have hf : A₁.git.inflightWrite = false := by
    rw [← hA₁]
    exact hfree.inflightWrite
  have hs : A₁.git.stagingArea = A.git.stagingArea ++ [op] := by
    rw [← hA₁]
    rfl
  have hne : A₁.git.stagingArea ≠ [] := by
    rw [hs]
    exact List.append_ne_nil_of_right_ne_nil _ (List.cons_ne_nil op [])
  obtain ⟨text, content, r, hr, hcommit⟩ := commit_of_staged cfg.toPlatform hf hne message now
  refine ⟨A₁.acted { A₁.git with pendingHash := some r.hash, pendingMessage := some text }
    (.prepared r.hash A₁.git.stagingArea) [], op, text, r.hash, hop, hf, hs, rfl, rfl,
    hr ▸ hhash content, ?_, ?_, ?_⟩
  · rw [← hA₁]
    exact Iff.rfl
  · intro j
    rw [acted_dispatchedIn A₁ _ rfl, ← hA₁, acted_dispatchedIn A _ rfl]
  · unfold executeOneShotOrder
    rw [hstage]
    dsimp only
    rw [hcommit]

theorem entered (hhash : ∀ content, cfg.generateCommitHash content ≠ "") (A : EntryAccount)
    (i : Nat) (stage : StageCallback) (message : String) (now : Timestamp) :
    Entered cfg A i stage (executeOneShotOrder cfg A i stage message now).1
      (executeOneShotOrder cfg A i stage message now).2 := by
  by_cases hr : Refuses A stage
  · obtain ⟨A', e, hstage, hA⟩ := stage_of_refuses hr
    unfold executeOneShotOrder
    rw [hstage]
    exact .refused hr hA
  obtain ⟨A', op, text, hash, hop, hf, hs, hm, hh, hne, hiff, hd, heq⟩ :=
    executeOneShotOrder_of_not_refuses cfg hhash hr i message now
  rw [heq]
  by_cases hopen : Open cfg A.account
  · obtain ⟨first, rest, hfirst⟩ := List.exists_cons_of_ne_nil
      (List.append_ne_nil_of_right_ne_nil A.git.stagingArea (List.cons_ne_nil op []))
    obtain ⟨B, hB, hpush⟩ :=
      enterPush_of_open cfg (hiff.mpr hopen) hf (hs.trans hfirst) hm hh hne i
    rw [hpush]
    refine .entered hr hopen hop hfirst rfl rfl rfl ?_
    intro j
    rw [dispatchedIn, guardPipeline_ledger, hB, dispatchedBy_append, ← hd j]
    by_cases hij : i = j <;>
      simp [dispatchedIn, dispatchedBy, Act.dispatchOf, hij, List.filterMap_cons]
  · obtain ⟨e, hpush⟩ := enterPush_of_not_open cfg (mt hiff.mp hopen) i hash
    rw [hpush]
    exact .left hr hopen hop hs hd

/-! ## The push of a one-shot order -/

def loop? : Stage → Option Loop
  | .guarding l _ | .checking l _ | .closing l _ _ | .executing l | .failing l _ => some l
  | _ => none

theorem perform_loop (A : Account) (i : Nat) (l : Loop) (op : Operation) :
    loop? (perform A i l op).2 = some l := by
  unfold perform
  split
  · split <;> rfl
  all_goals rfl

theorem dispatcher_loop (A : Account) (i : Nat) (l : Loop) (op : Operation) :
    loop? (dispatcher cfg A i l op).2 = some l := by
  unfold dispatcher
  split_ifs
  · rfl
  · rfl
  · exact perform_loop A i l op

theorem guardPipeline_loop (A : Account) (i : Nat) (l : Loop) (op : Operation) :
    loop? (guardPipeline cfg A i l op).2 = some l := by
  unfold guardPipeline
  split_ifs
  · rfl
  · exact dispatcher_loop cfg A i l op

variable {r : PushAnswer}

theorem advance_loop {automated : Bool} {l : Loop} (hl : loop? st = some l)
    (h : advance cfg A i automated st r = some (A', st')) :
    (A'.ledger = A.ledger ∧ loop? st' = some l) ∨
      ∃ a, answer cfg A i l.task a = some (A', st') := by
  unfold advance at h
  split at h
  all_goals try (cases h; done)
  all_goals try (cases hl; done)
  all_goals obtain rfl := Option.some.inj hl
  · rename_i loop op
    have hledger := dispatcher_ledger cfg A i loop op
    have hloop := dispatcher_loop cfg A i loop op
    rw [Option.some.inj h] at hledger hloop
    exact .inl ⟨hledger, hloop⟩
  · exact .inr ⟨_, h⟩
  · exact .inr ⟨_, h⟩
  · rename_i loop op
    have hledger := perform_ledger (A.note i (.passed op)) i loop op
    have hloop := perform_loop (A.note i (.passed op)) i loop op
    rw [Option.some.inj h] at hledger hloop
    exact .inl ⟨hledger, hloop⟩
  · exact .inr ⟨_, h⟩
  · split at h
    · exact .inr ⟨_, h⟩
    · cases h
      exact .inl ⟨rfl, rfl⟩
  · exact .inr ⟨_, h⟩
  · exact .inr ⟨_, h⟩
  · exact .inr ⟨_, h⟩

/-- A push that dispatches no more: it is at its last operation, or past its loop. -/
def Last : Stage → Prop
  | .guarding l _ | .checking l _ | .closing l _ _ | .executing l | .failing l _ =>
    l.operations.length = l.results.length + 1
  | .writing task => ∃ p, task = .snapshotting p ∨ task = .persisting p
  | .settling _ | .recordingFailure _ | .done _ => True
  | .stopping _ | .ledger _ => False

theorem last_of_loop {st : Stage} {l : Loop} (hl : loop? st = some l) :
    Last st ↔ l.operations.length = l.results.length + 1 := by
  cases st <;> cases hl <;> exact Iff.rfl

theorem answer_last {task : Task} {a : Answer} {st : Stage}
    (hlast : (∃ p, task = .snapshotting p ∨ task = .persisting p) ∨
      ∃ l : Loop, task = l.task ∧ l.operations.length = l.results.length + 1)
    (h : answer cfg A i task a = some (A', st)) :
    Last st ∧ ∀ j, dispatchedBy j A'.ledger.history = dispatchedBy j A.ledger.history := by
  obtain ⟨⟨L, task'⟩, hq, he⟩ := Option.map_eq_some_iff.mp h
  have hledger := follow_ledger cfg { A with ledger := L } i task'
  rw [he] at hledger
  change A'.ledger = L at hledger
  rw [hledger]
  have hr : Resumed A.ledger i task a L task' := resume_spec hq
  cases hr with
  | dispatched hop₀ ha hop =>
    rcases hlast with ⟨p, hp | hp⟩ | ⟨l, hp, hlen⟩
    · cases hp
    · cases hp
    · cases hp
      have := (List.getElem?_eq_some_iff.mp hop).1
      omega
  | executed hop₀ ha hlen =>
    cases he
    exact ⟨⟨_, .inl rfl⟩, fun j ↦ rfl⟩
  | appended =>
    cases he
    exact ⟨⟨_, .inr rfl⟩, fun j ↦ by simp [dispatchedBy, Act.dispatchOf]⟩
  | cleared =>
    cases he
    exact ⟨trivial, fun j ↦ by simp [dispatchedBy, Act.dispatchOf]⟩
  | failed ht =>
    cases he
    exact ⟨trivial, fun j ↦ rfl⟩
  | settled =>
    rcases hlast with ⟨p, hp | hp⟩ | ⟨l, hp, hlen⟩ <;> cases hp

theorem advance_last (hlast : Last st) (h : advance cfg A i false st r = some (A', st')) :
    Last st' ∧ ∀ j, dispatchedBy j A'.ledger.history = dispatchedBy j A.ledger.history := by
  cases hl : loop? st with
  | some l =>
    have hlen := (last_of_loop hl).mp hlast
    rcases advance_loop cfg hl h with ⟨hledger, hl'⟩ | ⟨a, ha⟩
    · exact ⟨(last_of_loop hl').mpr hlen, fun j ↦ by rw [hledger]⟩
    · exact answer_last cfg (.inr ⟨l, rfl, hlen⟩) ha
  | none =>
    cases advance_spec h with
    | settled => exact ⟨trivial, fun j ↦ rfl⟩
    | admitted => exact hlast.elim
    | dispatched => cases hl
    | checked => cases hl
    | closed => cases hl
    | answered hst => cases st <;> cases hst <;> cases hl
    | wrote h => exact answer_last cfg (.inl hlast) h
    | finished h =>
      obtain ⟨rfl, hst⟩ := settle_spec h
      rcases hst with rfl | rfl <;> exact ⟨trivial, fun j ↦ rfl⟩
    | ledger => exact hlast.elim

theorem exists_next {A : Account} {st : Stage} {l : Loop} {op next : Operation}
    (hl : loop? st = some l) (hop : l.operations[l.results.length]? = some op)
    (hnext : l.operations[l.results.length + 1]? = some next) :
    ∃ r A' st', advance cfg A i false st r = some (A', st') ∧
      dispatchedBy i A'.ledger.history = dispatchedBy i A.ledger.history ++ [next] := by
  have hanswer : ∀ text, ∃ A' st', answer cfg A i l.task (.threw text) = some (A', st') ∧
      dispatchedBy i A'.ledger.history = dispatchedBy i A.ledger.history ++ [next] := by
    intro text
    have hresume : Git.resume A.ledger i l.task (.threw text) =
        some (nextOperation A.ledger i l.operations l.message l.hash
          (l.results ++ [thrownResult op text])) := by
      simp only [Loop.task, Git.resume, hop, Option.map_some]
    have hnextOp : nextOperation A.ledger i l.operations l.message l.hash
        (l.results ++ [thrownResult op text]) =
        (A.ledger.note [.dispatched i next],
          .executing l.operations l.message l.hash (l.results ++ [thrownResult op text])) := by
      simp only [nextOperation, List.length_append, List.length_singleton, hnext]
    rw [hnextOp] at hresume
    let q := follow cfg { A with ledger := A.ledger.note [.dispatched i next] } i
      (.executing l.operations l.message l.hash (l.results ++ [thrownResult op text]))
    have hledger : q.1.ledger = A.ledger.note [.dispatched i next] := follow_ledger cfg _ i _
    refine ⟨q.1, q.2, by rw [answer, hresume]; rfl, ?_⟩
    rw [hledger, note_history, dispatchedBy_append, dispatchedBy_self]
  cases st <;> cases hl
  · obtain ⟨A', st', ha, hd⟩ := hanswer ""
    exact ⟨.git (.threw ""), A', st', ha, hd⟩
  · obtain ⟨A', st', ha, hd⟩ := hanswer ""
    exact ⟨.git (.threw ""), A', st', ha, hd⟩
  · obtain ⟨A', st', ha, hd⟩ := hanswer ""
    exact ⟨.git (.threw ""), A', st', ha, hd⟩
  · obtain ⟨A', st', ha, hd⟩ := hanswer ""
    exact ⟨.git (.threw ""), A', st', ha, hd⟩
  · rename_i message
    obtain ⟨A', st', ha, hd⟩ := hanswer message
    exact ⟨.settled, A', st', ha, hd⟩

/-! ## Runs -/

def Fresh (W : EntryWorld) : Prop := ∀ j, W.tasks.length ≤ j → dispatchedIn W.shared j = []

theorem start_dispatchedIn (hhash : ∀ content, cfg.generateCommitHash content ≠ "")
    {i j : Nat} (hij : i ≠ j) (A : EntryAccount) (c : EntryCall) :
    dispatchedIn (start cfg A i c).1 j = dispatchedIn A j := by
  cases c with
  | oneShot stage message now =>
    have he := entered cfg hhash A i stage message now
    change dispatchedIn (executeOneShotOrder cfg A i stage message now).1 j = _
    generalize executeOneShotOrder cfg A i stage message now = q at he ⊢
    obtain ⟨A', t⟩ := q
    cases he with
    | refused hr hA => rw [dispatchedIn, hA, dispatchedIn]
    | left _ _ _ _ hd => exact hd j
    | entered _ _ _ _ _ _ _ hd => rw [hd j, if_neg hij, List.append_nil]
  | stage stage => exact stage_dispatchedIn A stage j
  | commit message now => exact commit_dispatchedIn A message now j
  | other c => exact (start_moves cfg A.account i c).dispatchedBy_ne hij

/-- Everything a later stretch of a call can do. -/
inductive Resumes (A : EntryAccount) (i : Nat) : EntryTask → EntryAccount → EntryTask → Prop
  | pushing {st st' : Stage} {r : PushAnswer} {B : Account}
      (h : advance cfg A.account i false st r = some (B, st')) :
      Resumes A i (.pushing st) { A with account := B } (.pushing st')
  | other {t t' : PushTask} {r : PushAnswer} {B : Account} {ids : List String}
      (h : advance cfg A.account i t.automated t.stage r = some (B, t'.stage)) :
      Resumes A i (.other t) ⟨B, ids⟩ (.other t')

theorem resumes {A A' : EntryAccount} {t t' : EntryTask}
    (h : resume cfg A i t r = some (A', t')) : Resumes cfg A i t A' t' := by
  cases t with
  | pushing st =>
    obtain ⟨q, hq, he⟩ := Option.map_eq_some_iff.mp h
    cases he
    exact .pushing hq
  | other task =>
    obtain ⟨q, hq, he⟩ := Option.map_eq_some_iff.mp h
    obtain ⟨q', hq', he'⟩ := Option.map_eq_some_iff.mp hq
    cases he
    cases he'
    exact .other hq'
  | failed phase error => cases h
  | settled => cases h

theorem resume_dispatchedIn {i j : Nat} (hij : i ≠ j) {A A' : EntryAccount} {t t' : EntryTask}
    (h : resume cfg A i t r = some (A', t')) :
    dispatchedIn A' j = dispatchedIn A j := by
  cases resumes cfg h with
  | pushing ha => exact (advance_moves cfg ha).dispatchedBy_ne hij
  | other ha => exact (advance_moves cfg ha).dispatchedBy_ne hij

theorem fresh_of_reach (hhash : ∀ content, cfg.generateCommitHash content ≠ "") {g : TradingGit}
    {W : EntryWorld} (h : Reach (entryProg cfg).step anyStep (EntryWorld.initial g) W) :
    Fresh W := by
  refine h.invariant (fun j _ ↦ rfl) ?_
  intro W e W' hfresh _ hst
  cases e with
  | call c =>
    cases Prog.step_call hst
    intro j hj
    rw [List.length_append, List.length_singleton] at hj
    have hne : W.tasks.length ≠ j := by omega
    exact (start_dispatchedIn cfg hhash hne W.shared c).trans (hfresh j (by omega))
  | resume i r =>
    obtain ⟨k, s', k', hk, hr, rfl⟩ := Prog.step_resume hst
    intro j hj
    rw [List.length_set] at hj
    have hlt := (List.getElem?_eq_some_iff.mp hk).1
    have hne : i ≠ j := by omega
    exact (resume_dispatchedIn cfg hne hr).trans (hfresh j hj)

/-- A one-shot order that dispatches no more: it failed before its push, or it is in its push and
has dispatched some operations. -/
inductive Kept (i : Nat) (W : EntryWorld) : Option (List Operation) → Prop
  | failed {phase : OrderEntryPhase} {error : String}
      (ht : W.tasks[i]? = some (.failed phase error)) (hd : dispatchedIn W.shared i = []) : Kept i W none
  | pushing {st : Stage} {own : List Operation} (ht : W.tasks[i]? = some (.pushing st))
      (hlast : Last st) (hd : dispatchedIn W.shared i = own) : Kept i W (some own)

variable {cfg}

theorem Kept.step (hhash : ∀ content, cfg.generateCommitHash content ≠ "")
    {own : Option (List Operation)} {W W' : EntryWorld} {e : Event EntryCall PushAnswer}
    (h : Kept i W own) (hst : (entryProg cfg).step W e = some W') : Kept i W' own := by
  have hlt : i < W.tasks.length := by
    cases h with
    | failed ht => exact (List.getElem?_eq_some_iff.mp ht).1
    | pushing ht => exact (List.getElem?_eq_some_iff.mp ht).1
  cases e with
  | call c =>
    cases Prog.step_call hst
    have hd := start_dispatchedIn cfg hhash (Nat.ne_of_gt hlt) W.shared c
    have ht : ∀ t, (W.tasks ++ [t])[i]? = W.tasks[i]? := fun t ↦ List.getElem?_append_left hlt
    cases h with
    | failed htask hown => exact .failed ((ht _).trans htask) (hd.trans hown)
    | pushing htask hlast hown => exact .pushing ((ht _).trans htask) hlast (hd.trans hown)
  | resume n r =>
    obtain ⟨k, s', k', hk, hr, rfl⟩ := Prog.step_resume hst
    by_cases hn : n = i
    · subst hn
      have hset : (W.tasks.set n k')[n]? = some k' := List.getElem?_set_self hlt
      cases h with
      | failed htask hown =>
        cases hk.symm.trans htask
        cases hr
      | @pushing st _ htask hlast hown =>
        cases hk.symm.trans htask
        have hr : resume cfg W.shared n (.pushing st) r = some (s', k') := hr
        cases resumes cfg hr with
        | pushing hadvance =>
          obtain ⟨hlast', hd⟩ := advance_last cfg hlast hadvance
          exact .pushing hset hlast' ((hd n).trans hown)
    · have hd := resume_dispatchedIn cfg hn hr
      have ht : (W.tasks.set n k')[i]? = W.tasks[i]? := List.getElem?_set_ne hn
      cases h with
      | failed htask hown => exact .failed (ht.trans htask) (hd.trans hown)
      | pushing htask hlast hown => exact .pushing (ht.trans htask) hlast (hd.trans hown)

theorem Kept.reach (hhash : ∀ content, cfg.generateCommitHash content ≠ "")
    {own : Option (List Operation)} {W W' : EntryWorld} (h : Kept i W own)
    (hreach : Reach (entryProg cfg).step anyStep W W') : Kept i W' own := by
  induction hreach with
  | refl => exact h
  | tail _ _ hst ih => exact ih.step hhash hst

theorem step_pushing {W : EntryWorld} {B : Account} (ht : W.tasks[i]? = some (.pushing st))
    (h : advance cfg W.shared.account i false st r = some (B, st')) :
    (entryProg cfg).step W (.resume i r) =
      some ⟨{ W.shared with account := B }, W.tasks.set i (.pushing st')⟩ := by
  simp only [Prog.step, ht, Option.bind_some, entryProg, resume, h, Option.map_some]

/-! ## The theorem -/

/-- What call number `i` has returned. -/
def resultOf (W : EntryWorld) (i : Nat) : Option OrderEntryResult :=
  (W.tasks[i]?).bind EntryTask.result

def SameStaging (A A' : EntryAccount) : Prop :=
  A'.git.stagingArea = A.git.stagingArea ∧ A'.git.pendingMessage = A.git.pendingMessage ∧
    A'.git.pendingHash = A.git.pendingHash

variable (cfg) in
/-- **A one-shot order executes its own operation only**, whatever else runs after its first
stretch: it dispatches no other operation, it has dispatched its own when it returns a result,
and when it fails and has dispatched nothing, its one stretch left the staging area, the pending
message and the pending hash as they were. -/
def OwnOrderOnly (W : EntryWorld) (stage : StageCallback) (message : String) (now : Timestamp) :
    Prop :=
  ∀ W₁, (entryProg cfg).step W (.call (.oneShot stage message now)) = some W₁ →
    ∀ W', Reach (entryProg cfg).step anyStep W₁ W' →
      dispatchedIn W'.shared W.tasks.length <+: stage.operations ∧
      (∀ result, resultOf W' W.tasks.length = some (.ok result) →
        dispatchedIn W'.shared W.tasks.length = stage.operations) ∧
      (∀ phase error, resultOf W' W.tasks.length = some (.failed phase error) →
        dispatchedIn W'.shared W.tasks.length = [] → SameStaging W.shared W₁.shared)

/-- **Exactly when** a one-shot order executes its own operation only: when its operation is not
staged, or when nothing was staged before it and the account lets pushes in. -/
theorem ownOrderOnly_iff (hhash : ∀ content, cfg.generateCommitHash content ≠ "")
    {g : TradingGit} {W : EntryWorld}
    (h : Reach (entryProg cfg).step anyStep (EntryWorld.initial g) W) (stage : StageCallback)
    (message : String) (now : Timestamp) :
    OwnOrderOnly cfg W stage message now ↔ Refuses W.shared stage ∨
        (W.shared.git.stagingArea = [] ∧ Open cfg W.shared.account) := by
  have hfresh := fresh_of_reach cfg hhash h W.tasks.length (Nat.le_refl _)
  have hentered := entered cfg hhash W.shared W.tasks.length stage message now
  have hstep : (entryProg cfg).step W (.call (.oneShot stage message now)) =
      some ⟨(executeOneShotOrder cfg W.shared W.tasks.length stage message now).1,
        W.tasks ++ [(executeOneShotOrder cfg W.shared W.tasks.length stage message now).2]⟩ := rfl
  unfold OwnOrderOnly
  rw [hstep]
  generalize executeOneShotOrder cfg W.shared W.tasks.length stage message now = q at hentered ⊢
  obtain ⟨A', t⟩ := q
  have hself : (W.tasks ++ [t])[W.tasks.length]? = some t := by simp
  constructor
  · intro hown
    have hown := hown _ rfl
    cases hentered with
    | refused hr => exact .inl hr
    | left hr hopen hop hs hd =>
      -- the operation stays behind
      have hsame := (hown _ .refl).2.2 .push _ (by rw [resultOf, hself]; rfl) ((hd _).trans hfresh)
      have hlength := congrArg List.length (hs.symm.trans hsame.1)
      simp at hlength
    | @entered B l op first rest hr hopen hop hfirst hl hresults hA hd =>
      refine .inr ⟨?_, hopen⟩
      cases rest with
      | nil =>
        have hlength := congrArg List.length hfirst
        exact List.length_eq_zero_iff.mp (by simpa using hlength)
      | cons second rest =>
        -- the second operation is dispatched too
        have hloop := guardPipeline_loop cfg B W.tasks.length l first
        have hop₀ : l.operations[l.results.length]? = some first := by
          rw [hl, hresults]
          rfl
        have hop₁ : l.operations[l.results.length + 1]? = some second := by
          rw [hl, hresults]
          rfl
        obtain ⟨r, C, st, hadvance, hnext⟩ :=
          exists_next cfg (A := A'.account) (i := W.tasks.length) hloop hop₀ hop₁
        have hresume := step_pushing (W := ⟨A', W.tasks ++ [_]⟩) hself hadvance
        have hpre := (hown _ (.single trivial hresume)).1
        have hlength := hpre.length_le
        rw [dispatchedIn, hnext, ← dispatchedIn, hd, if_pos rfl, hop, List.length_append,
          List.length_append, List.length_singleton] at hlength
        simp at hlength
  · rintro hcond W₁ hW W' hreach
    cases hW
    cases hentered with
    | refused hr hA =>
      have hkept : Kept W.tasks.length ⟨A', W.tasks ++ [_]⟩ none :=
        .failed hself (by rw [dispatchedIn, hA]; exact hfresh)
      cases hkept.reach hhash hreach with
      | failed ht hd =>
        refine ⟨by rw [hd]; exact List.nil_prefix, ?_, ?_⟩
        · intro result hresult
          rw [resultOf, ht] at hresult
          cases hresult
        intro phase error _ _
        rw [SameStaging, EntryAccount.git, hA]
        exact ⟨rfl, rfl, rfl⟩
    | left hr hopen =>
      rcases hcond with hrefuses | ⟨-, hopen'⟩
      · exact absurd hrefuses hr
      · exact absurd hopen' hopen
    | @entered B l op first rest hr hopen hop hfirst hl hresults hA hd =>
      obtain ⟨hempty, -⟩ := hcond.resolve_left hr
      rw [hempty, List.nil_append] at hfirst
      obtain ⟨rfl, rfl⟩ := List.cons.inj hfirst
      have hloop := guardPipeline_loop cfg B W.tasks.length l op
      have hlast := (last_of_loop hloop).mpr (by rw [hl, hresults]; rfl)
      have hown := hd W.tasks.length
      rw [hfresh, if_pos rfl, List.nil_append] at hown
      have hkept : Kept W.tasks.length ⟨A', W.tasks ++ [_]⟩ (some _) := .pushing hself hlast hown
      cases hkept.reach hhash hreach with
      | pushing ht hlast' hd' =>
        rw [hd', hop]
        refine ⟨List.prefix_refl _, fun _ _ ↦ rfl, ?_⟩
        intro phase error _ hnil
        cases hnil

theorem paperConfig_hash (content : HashContent) : paperConfig.generateCommitHash content ≠ "" := by
  rw [show paperConfig.generateCommitHash content = "0a1b2c3d" from rfl]
  decide

def agentStaged : EntryWorld :=
  ⟨(start paperConfig ⟨{ ledger := ⟨{}, []⟩ }, []⟩ 0
    (.stage (.stages none (.cancelOrder "1")))).1, [.settled]⟩

theorem reach_agentStaged :
    Reach (entryProg paperConfig).step anyStep (EntryWorld.initial {}) agentStaged :=
  .single (e := .call (.stage (.stages none (.cancelOrder "1")))) trivial rfl

/-- Another cancellation, placed in one call on that account. -/
theorem ownOrderOnly_iff_agentStaged :
    OwnOrderOnly paperConfig agentStaged (.stages none (.cancelOrder "2")) "cancel 2" 7 ↔
      Refuses agentStaged.shared (.stages none (.cancelOrder "2")) ∨
        (agentStaged.shared.git.stagingArea = [] ∧ Open paperConfig agentStaged.shared.account) :=
  ownOrderOnly_iff paperConfig_hash reach_agentStaged _ _ _

/-- It dispatches the cancellation that the agent staged. -/
theorem not_ownOrderOnly :
    ¬ ∀ cfg : PushConfig, (∀ content, cfg.generateCommitHash content ≠ "") → ∀ g W,
      Reach (entryProg cfg).step anyStep (EntryWorld.initial g) W →
      ∀ stage message now, OwnOrderOnly cfg W stage message now := by
  intro h
  have hown := h paperConfig paperConfig_hash {} agentStaged reach_agentStaged
    (.stages none (.cancelOrder "2")) "cancel 2" 7
  have hprefix := (hown _ rfl _ .refl).1
  have hdispatched : dispatchedIn (executeOneShotOrder paperConfig agentStaged.shared 1
      (.stages none (.cancelOrder "2")) "cancel 2" 7).1 1 = [.cancelOrder "1"] := rfl
  change dispatchedIn (executeOneShotOrder paperConfig agentStaged.shared 1
    (.stages none (.cancelOrder "2")) "cancel 2" 7).1 1 <+: [.cancelOrder "2"] at hprefix
  rw [hdispatched] at hprefix
  revert hprefix
  decide

end OpenAlice.Trading.OrderEntry
