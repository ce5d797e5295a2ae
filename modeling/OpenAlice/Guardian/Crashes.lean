import OpenAlice.Guardian.Alone
import OpenAlice.Guardian.OneHolder

/-!
# Crashes leave the lock free

In a run in which no process crashes with its claim in the lock directory, a call by itself
acquires the lock once nobody uses it (`lock_recovers_iff`, with `acquires_iff` of `Alone.lean`).
-/

namespace OpenAlice.Guardian

open OpenAlice.Run

def LockState.claim? (s : LockState) : Option Nat := s.dir.bind LockDir.claim

def LockPhase.claims : LockPhase → Bool
  | .checking _ _ _ | .verifying _ _ _ | .quarantining _ _ | .unclaiming _ => true
  | _ => false

variable {s s' : LockState} {i : Nat} {t : LockTask} {p p' : LockPhase} {a : LockAnswer}

theorem claim?_unclaim (s : LockState) :
    LockState.claim? { s with dir := s.dir.map LockDir.unclaim } = none := by
  obtain ⟨dir, made, dead⟩ := s
  cases dir <;> rfl

theorem claim_step (h : stepPhase s i t p a = some (s', p')) :
    s'.claim? = s.claim? ∨ s'.claim? = none ∨ s'.claim? = some i ∧ p'.claims = true := by
  rw [stepPhase.eq_def] at h
  split at h
  all_goals repeat' split at h
  -- The directory is left alone, written into, gone, claimed or no longer claimed.
  all_goals first
    | (cases h; exact .inl rfl)
    | (cases h; exact .inr (.inl rfl))
    | (cases h; exact .inr (.inr ⟨rfl, rfl⟩))
    | (cases h; exact .inr (.inl (claim?_unclaim s)))
    | (cases h; rw [LockState.claim?, LockState.claim?, ‹s.dir = some _›]; exact .inl rfl)
    | cases h

theorem dead_step (h : stepPhase s i t p a = some (s', p')) : s'.dead = s.dead := by
  rw [stepPhase.eq_def] at h
  split at h
  all_goals repeat' split at h
  all_goals first
    | (cases h; rfl)
    | cases h

theorem claims_step (h : stepPhase s i t p a = some (s', p')) (hclaims : p.claims = true) :
    s'.claim? = none ∨ p'.claims = true := by
  cases p with
  | checking attempt identity owner =>
    cases a with
    | done =>
      rw [stepPhase] at h
      split at h <;> cases h
      · exact .inr rfl
      · right
        split_ifs <;> rfl
    | _ => cases h
  | verifying attempt identity owner =>
    cases a with
    | done =>
      cases h
      right
      split_ifs <;> rfl
    | _ => cases h
  | quarantining attempt identity =>
    cases a with
    | done =>
      rw [stepPhase] at h
      split at h <;> cases h
      · exact .inr rfl
      · exact .inl rfl
    | _ => cases h
  | unclaiming next =>
    cases a with
    | done =>
      cases h
      exact .inl (claim?_unclaim s)
    | _ => cases h
  | _ => cases hclaims

/-! ## Runs -/

section Runs

variable {W W' : World LockState LockTask}

def CrashesClean (W : World LockState LockTask) : Event LockCall LockAnswer → Prop
  | .call (.crash proc) => ∀ t ∈ W.tasks, t.proc = proc → t.phase.claims = false
  | _ => True

/-- Nobody uses the lock: every call is over, or its process is dead. -/
def Idle (W : World LockState LockTask) : Prop :=
  ∀ t ∈ W.tasks, t.proc ∈ W.shared.dead ∨ ∃ ending, t.phase = .over ending

/-- Whose claim stands in the directory runs, and will remove it. -/
def Watched (W : World LockState LockTask) : Prop :=
  ∀ j, W.shared.claim? = some j → ∃ t, W.tasks[j]? = some t ∧ t.proc ∉ W.shared.dead ∧
    t.phase.claims = true

theorem Watched.step (h : Watched W) {e : Event LockCall LockAnswer} (hok : CrashesClean W e)
    (hstep : runtimeLock.step W e = some W') : Watched W' := by
  cases e with
  | call c =>
    cases Prog.step_call hstep
    intro j hj
    have hclaim : (runtimeLock.start W.shared W.tasks.length c).1.claim? = W.shared.claim? := by
      cases c <;> rfl
    obtain ⟨t, ht, hlive, hclaims⟩ := h j (hclaim.symm.trans hj)
    refine ⟨t, (List.getElem?_append_left (List.getElem?_eq_some_iff.mp ht).1).trans ht, ?_,
      hclaims⟩
    cases c with
    | acquire proc takeover => exact hlive
    | inspect proc => exact hlive
    | crash proc =>
      intro hdead
      rcases List.mem_cons.mp hdead with hproc | hdead
      · cases (hok t (List.mem_of_getElem? ht) hproc).symm.trans hclaims
      · exact hlive hdead
  | resume i a =>
    obtain ⟨t, s', t', hi, hresume, rfl⟩ := Prog.step_resume hstep
    simp only [runtimeLock, resumeLock] at hresume
    split_ifs at hresume with hlive
    obtain ⟨⟨s₁, p'⟩, hphase, heq⟩ := Option.map_eq_some_iff.mp hresume
    cases heq
    have hself : (W.tasks.set i { t with phase := p' })[i]? = some { t with phase := p' } :=
      List.getElem?_set_self (List.getElem?_eq_some_iff.mp hi).1
    have hdead : s₁.dead = W.shared.dead := dead_step hphase
    intro j hj
    rcases claim_step hphase with hsame | hnone | ⟨hnew, hclaims⟩
    · obtain ⟨t₀, ht₀, hlive₀, hclaims₀⟩ := h j (hsame.symm.trans hj)
      by_cases hji : j = i
      · subst hji
        cases hi.symm.trans ht₀
        rcases claims_step hphase hclaims₀ with hnone | hclaims
        · cases hnone.symm.trans hj
        · exact ⟨_, hself, hdead ▸ hlive, hclaims⟩
      · exact ⟨t₀, (List.getElem?_set_ne (Ne.symm hji)).trans ht₀, hdead ▸ hlive₀, hclaims₀⟩
    · cases hnone.symm.trans hj
    · obtain rfl : i = j := Option.some.inj (hnew.symm.trans hj)
      exact ⟨_, hself, hdead ▸ hlive, hclaims⟩

theorem claim?_of_idle (hreach : Reach runtimeLock.step CrashesClean noLock W) (hidle : Idle W) :
    W.shared.claim? = none := by
  have hwatched : Watched W := by
    refine hreach.invariant ?_ fun _ _ _ hW hok hstep ↦ hW.step hok hstep
    intro j hj
    cases hj
  cases hclaim : W.shared.claim? with
  | none => rfl
  | some j =>
    obtain ⟨t, ht, hlive, hclaims⟩ := hwatched j hclaim
    rcases hidle t (List.mem_of_getElem? ht) with hdead | ⟨ending, hend⟩
    · exact absurd hdead hlive
    · rw [hend] at hclaims
      cases hclaims

/-- **A crash does not block the lock**: from any state of its directory, once its owner does not
run, a call by itself acquires the lock exactly when there is no claim in the directory, and the
owner is not taken for running or is taken over from; and after a run in which no process crashes
with a claim in it, there is none. -/
theorem lock_recovers_iff (terminates : Proc → Bool) (controller : Controller) (token : Nat)
    (proc : Proc) (takeover : Bool) :
    (∀ s, OwnerDead s → ((acquireAlone controller s token proc takeover).Succeeds terminates ↔
      Recoverable terminates controller takeover s)) ∧
    ∀ W, Reach runtimeLock.step CrashesClean noLock W → Idle W → OwnerDead W.shared →
      (∀ owner, W.shared.readOwner = some owner → controller.takesForRunning owner.proc = false) →
      (acquireAlone controller W.shared token proc takeover).Succeeds terminates := by
  refine ⟨fun s hdead ↦ acquires_iff hdead, fun W hreach hidle hdead hrunning ↦ ?_⟩
  refine (acquires_iff hdead).mpr fun d hdir ↦ ⟨?_, fun owner howner ↦ .inl (hrunning owner ?_)⟩
  · have hnone := claim?_of_idle hreach hidle
    rw [LockState.claim?, hdir] at hnone
    exact hnone
  · rw [LockState.readOwner, hdir]
    exact howner

end Runs

/-! ## Runs to evaluate -/

def ownerCrashes : List (Event LockCall LockAnswer) :=
  [acquires 1] ++ takes 0 ++ [.call (.crash (sampleProc 1))]

def claimantCrashes : List (Event LockCall LockAnswer) :=
  ownerCrashes ++ [acquires 2] ++ finds 2 true ++ does 2 1 ++ [.call (.crash (sampleProc 2))]

def nobodyRuns : Controller := ⟨"linux:1", fun _ ↦ false, fun _ ↦ none⟩

theorem ownerCrashes_clean (n : Nat) (e : Event LockCall LockAnswer)
    (he : ownerCrashes[n]? = some e) :
    CrashesClean (after runtimeLock.step noLock (ownerCrashes.take n)) e := by
  match n with
  | 0 | 1 | 2 | 3 =>
    cases he
    trivial
  | 4 =>
    cases he
    show ∀ t : LockTask, t ∈ _ → t.proc = sampleProc 1 → t.phase.claims = false
    decide
  | n + 5 => cases he

/-- The owner of the lock has crashed, and another process acquires it. -/
theorem lock_recovers_ownerCrashes : Recoverable (fun _ ↦ false) nobodyRuns false
      (after runtimeLock.step noLock ownerCrashes).shared ∧
    (acquireAlone nobodyRuns (after runtimeLock.step noLock ownerCrashes).shared 2 (sampleProc 2)
      false).Succeeds fun _ ↦ false := by
  obtain ⟨hiff, hruns⟩ := lock_recovers_iff (fun _ ↦ false) nobodyRuns 2 (sampleProc 2) false
  have hdead : OwnerDead (after runtimeLock.step noLock ownerCrashes).shared := by
    intro d owner hdir howner
    cases hdir
    cases howner
    decide
  have hsucceeds := hruns (after runtimeLock.step noLock ownerCrashes)
    (Reach.of_after ownerCrashes (by decide) ownerCrashes_clean) (fun t ht ↦ .inl ?_) hdead
    (fun owner howner ↦ ?_)
  · exact ⟨(hiff _ hdead).mp hsucceeds, hsucceeds⟩
  · revert t ht
    decide
  · cases howner
    rfl

/-- A process has crashed with its claim in the directory: nobody runs, and the lock is not
acquired any more. -/
theorem lock_blocked : ∃ W, Reach runtimeLock.step anyStep noLock W ∧ Idle W ∧ OwnerDead W.shared ∧
    (∀ owner, W.shared.readOwner = some owner → nobodyRuns.takesForRunning owner.proc = false) ∧
    ∀ token proc takeover,
      ¬ (acquireAlone nobodyRuns W.shared token proc takeover).Succeeds fun _ ↦ true := by
  refine ⟨after runtimeLock.step noLock claimantCrashes,
    Reach.of_after claimantCrashes (by decide) fun _ _ _ ↦ trivial, fun t ht ↦ .inl ?_, ?_, ?_, ?_⟩
  · revert t ht
    decide
  · intro d owner hdir howner
    cases hdir
    cases howner
    decide
  · intro owner howner
    cases howner
    rfl
  · intro token proc takeover hsucceeds
    obtain ⟨hclaim, -⟩ := recoverable_of_succeeds hsucceeds _ rfl
    cases hclaim

end OpenAlice.Guardian
