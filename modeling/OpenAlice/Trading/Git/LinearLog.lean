import OpenAlice.Data.Linked
import OpenAlice.Trading.Git.Cases
import OpenAlice.Trading.Git.Digest

/-!
# The commit log is one linear chain

Every writer reads the head and appends in one uninterrupted stretch, whatever
it computed before suspending: so no interleaving and no failing callback can
make two commits name the same parent, or leave the head behind the log.
-/

namespace OpenAlice.Trading.Git

open OpenAlice.Run OpenAlice.Data TradingGit

structure LinearLog (commits : List GitCommit) (head : Option CommitHash) : Prop where
  first : ∀ c, commits[0]? = some c → c.parentHash = none
  next : ∀ (i : Nat) (c d : GitCommit), commits[i]? = some c → commits[i + 1]? = some d →
    d.parentHash = some c.hash
  head : head = commits.getLast?.map GitCommit.hash

theorem linearLog_iff {commits : List GitCommit} {head : Option CommitHash} :
    LinearLog commits head ↔ Linked GitCommit.parentHash GitCommit.hash none commits ∧
        head = tip GitCommit.hash none commits := by
  constructor
  · rintro ⟨hfirst, hnext, hhead⟩
    exact ⟨linked_of hfirst hnext, by rw [hhead, tip_eq_getLast]⟩
  · rintro ⟨hl, hhead⟩
    exact ⟨fun _ ↦ hl.first, fun _ _ _ ↦ hl.next, by rw [hhead, tip_eq_getLast]⟩

def Linear (g : TradingGit) : Prop := LinearLog g.commits g.head

theorem linear_new : Linear {} := linearLog_iff.mpr ⟨trivial, rfl⟩

theorem linear_restore {s : GitExportState} (h : LinearLog s.commits s.head) :
    Linear (restore s) := by
  obtain ⟨hl, hhead⟩ := linearLog_iff.mp h
  refine linearLog_iff.mpr ⟨(linked_map (fun _ ↦ rfl) fun _ ↦ rfl).mpr hl, ?_⟩
  rw [tip_eq_getLast] at hhead ⊢
  simpa [restore, Function.comp_def, GitCommit.rehydrate] using hhead

theorem linear_append {g : TradingGit} (h : Linear g) (hash : CommitHash) (message : String)
    (operations : List Operation) (results : List OperationResult) (s : GitState)
    (t : Timestamp) : Linear (g.append hash message operations results s t) := by
  obtain ⟨hl, hhead⟩ := linearLog_iff.mp h
  refine linearLog_iff.mpr ⟨?_, ?_⟩
  · rw [append_commits, linked_append]
    exact ⟨hl, hhead⟩
  · rw [append_commits, tip_append, append_head]

variable {pf : Platform}

theorem Started.linear {L L' : Ledger} {i : Nat} {c : Call} {t : Task}
    (hs : Started pf L i c L' t) (h : Linear L.git) : Linear L'.git := by
  cases hs with
  | recorded hr =>
    obtain ⟨_, _, _, _, _, _, rfl⟩ := hr.append
    exact linear_append h _ _ _ _ _ _
  | _ => exact h

theorem Resumed.linear {L L' : Ledger} {i : Nat} {t t' : Task} {a : Answer}
    (hr : Resumed L i t a L' t') (h : Linear L.git) : Linear L'.git := by
  cases hr with
  | appended => exact linear_append h _ _ _ _ _ _
  | _ => exact h

theorem step_linear {W W' : GitWorld} {e : GitEvent} (h : Linear W.shared.git)
    (hst : (gitProg pf).step W e = some W') : Linear W'.shared.git := by
  cases e with
  | call c =>
    cases Prog.step_call hst
    exact (start_spec pf W.shared W.tasks.length c).linear h
  | resume i a =>
    obtain ⟨t, L', t', _, hr, rfl⟩ := Prog.step_resume hst
    exact (resume_spec hr).linear h

/-- The objects a process starts from: a new one, or one restored from an
exported state whose log is linear. -/
inductive Origin : TradingGit → Prop
  | new : Origin {}
  | restored {s : GitExportState} (h : LinearLog s.commits s.head) : Origin (restore s)

theorem Origin.linear {g : TradingGit} (h : Origin g) : Linear g := by
  cases h with
  | new => exact linear_new
  | restored h => exact linear_restore h

/-- **One linear chain.**  From a new object or a restored one, under every
interleaving of its methods and every choice of failing callbacks, the log is
linear in every state. -/
theorem log_linear {g : TradingGit} (hg : Origin g) {W : GitWorld}
    (h : Reach (gitProg pf).step anyStep (GitWorld.initial g) W) : Linear W.shared.git :=
  h.invariant hg.linear fun _ _ _ hI _ hst ↦ step_linear hI hst

/-- A reconciliation recorded while a push waits for its operation comes before
the commit of the push. -/
theorem log_linear_overlap : ∃ W : GitWorld,
    Reach (gitProg unaryPlatform).step anyStep (GitWorld.initial {}) W ∧
      W.shared.git.commits.map GitCommit.message = ["reconcile", "sync"] ∧
      Linear W.shared.git := by
  have hprep := Reach.of_exec _ (exec_prepare unaryPlatform .syncOrders "sync" 7)
  have hpush := reach_push hprep rfl rfl rfl rfl (unaryDigest_ne_empty _) trivial
  have hr := hpush.trans (Reach.of_exec
    [.call (.recordReconcile ⟨"acct|AAPL", 2, 100, {}, some "reconcile"⟩ 8),
      .resume 2 (.reply .notObject), .resume 2 (.state {} 9)] rfl)
  exact ⟨_, hr, rfl, log_linear .new hr⟩

end OpenAlice.Trading.Git
