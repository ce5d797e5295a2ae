import OpenAlice.Guardian.RuntimeLock

/-!
# Acquiring the lock with nobody else about

A single call of `acquireRuntimeLock` while no other call takes a step (`RuntimeLock.lean` has the
steps).  Every directory it finds was there before it and is older than the grace; the process
table answers for an owner as `inspectRuntimeLock` asks it, and has one process less when
`recoverRuntimeOwner` has ended it.

`acquires_iff` says when the call returns a lock: always, unless the directory it finds has a claim
in it, or an owner that is taken for running.  Nobody but the process that has made a claim removes
it, so a process that crashes with its claim in the directory blocks the lock for good.  In a run
in which no process does, it is not blocked (`lock_recovers_iff`).
-/

namespace OpenAlice.Guardian

open OpenAlice.Run

/-! ## A call by itself -/

/-- What `recoverRuntimeOwner` does: it throws for another machine, or if the process cannot be
ended. -/
def Controller.recovers (controller : Controller) (terminates : Proc → Bool) (proc : Proc) : Bool :=
  !proc.machineId.any (· ≠ controller.machineId) &&
    (!controller.isSameProcess proc || terminates proc)

def Controller.without (controller : Controller) (pid : Nat) : Controller :=
  { controller with isAlive := fun p ↦ p ≠ pid && controller.isAlive p }

structure Alone where
  shared : LockState
  token : Nat
  task : LockTask
  controller : Controller

section Alone

variable (terminates : Proc → Bool)

def Alone.answer (a : Alone) : Option LockAnswer :=
  match a.task.phase with
  | .stating _ => some (.stat true)
  | .judging _ _ owner => some (.judged (a.controller.takesForRunning owner.proc))
  | .recovering _ owner => some (.recovered (a.controller.recovers terminates owner.proc))
  | .held => none
  | .over _ => none
  | _ => some .done

def Alone.after (a : Alone) : Controller :=
  match a.task.phase with
  | .recovering _ owner =>
    if a.controller.recovers terminates owner.proc then a.controller.without owner.proc.pid
    else a.controller
  | _ => a.controller

def Alone.step (a : Alone) (_ : Unit) : Option Alone :=
  (a.answer terminates).bind fun answer ↦
    (stepPhase a.shared a.token a.task a.task.phase answer).map fun q ↦
      { a with
        shared := q.1
        task := { a.task with phase := q.2 }
        controller := a.after terminates }

def Alone.Succeeds (a : Alone) : Prop :=
  ∃ b, Reach (Alone.step terminates) anyStep a b ∧ b.task.phase = .held

/-- `acquireRuntimeLock`, before its first operation on the lock directory. -/
def acquireAlone (controller : Controller) (s : LockState) (token : Nat) (proc : Proc)
    (takeover : Bool) : Alone :=
  { shared := s, token, task := { proc, takeover, phase := .making 0 }, controller }

/-- There is no directory, or one without a claim whose owner is not taken for running, or can be
taken over from. -/
def Recoverable (controller : Controller) (takeover : Bool) (s : LockState) : Prop :=
  ∀ d, s.dir = some d → d.claim = none ∧ ∀ owner, d.owner = some owner →
    controller.takesForRunning owner.proc = false ∨
      takeover = true ∧ controller.recovers terminates owner.proc = true

/-- The owner named in the directory does not run any more. -/
def OwnerDead (s : LockState) : Prop :=
  ∀ d owner, s.dir = some d → d.owner = some owner → owner.proc ∈ s.dead

end Alone

def aloneAt (controller : Controller) (s : LockState) (token : Nat) (proc : Proc)
    (takeover : Bool) (p : LockPhase) : Alone :=
  { shared := s, token, task := { proc, takeover, phase := p }, controller }

variable {terminates : Proc → Bool} {a b : Alone} {s : LockState} {d : LockDir}
  {controller : Controller} {takeover : Bool} {token attempt : Nat} {proc : Proc}
  {owner : Owner} {p : LockPhase}

/-! ## What is not blocked is acquired -/

theorem Alone.Succeeds.step (h : a.step terminates () = some b) (hb : b.Succeeds terminates) :
    a.Succeeds terminates := by
  obtain ⟨c, hreach, hheld⟩ := hb
  exact ⟨c, (Reach.single trivial h).trans hreach, hheld⟩

theorem succeeds_of {s' : LockState} {p' : LockPhase} {x : LockAnswer}
    (hanswer : (aloneAt controller s token proc takeover p).answer terminates = some x)
    (hstep : stepPhase s token ⟨proc, takeover, p⟩ p x = some (s', p'))
    (h : (aloneAt ((aloneAt controller s token proc takeover p).after terminates) s' token proc
      takeover p').Succeeds terminates) :
    (aloneAt controller s token proc takeover p).Succeeds terminates := by
  refine .step ?_ h
  rw [Alone.step, hanswer, Option.bind_some]
  exact congrArg (Option.map _) hstep

theorem succeeds_writing (hdir : s.dir = some d) :
    (aloneAt controller s token proc takeover .writing).Succeeds terminates := by
  have hwrite : stepPhase s token ⟨proc, takeover, .writing⟩ .writing .done =
      some ({ s with dir := some (d.writeTemp token) }, .publishing) := by
    rw [stepPhase, hdir]
  have hrename : stepPhase { s with dir := some (d.writeTemp token) } token
      ⟨proc, takeover, .publishing⟩ .publishing .done =
      some ({ s with dir := some ((d.writeTemp token).renameTemp ⟨token, proc⟩) }, .held) :=
    if_pos (List.mem_cons_self ..)
  exact succeeds_of rfl hwrite (succeeds_of rfl hrename ⟨_, .refl, rfl⟩)

theorem succeeds_making (hdir : s.dir = none) :
    (aloneAt controller s token proc takeover (.making attempt)).Succeeds terminates := by
  have hmake : stepPhase s token ⟨proc, takeover, .making attempt⟩ (.making attempt) .done =
      some ({ s with dir := some { identity := s.made, maker := token }, made := s.made + 1 },
        .writing) := by
    rw [stepPhase, hdir]
  exact succeeds_of rfl hmake (succeeds_writing rfl)

theorem retry_of_lt (h : attempt + 1 < 40) : retry attempt = .making (attempt + 1) := if_pos h

theorem unchanged_self (owner : Option Owner) : unchanged owner owner = true := by
  cases owner with
  | none => rfl
  | some owner => exact decide_eq_true rfl

theorem succeeds_claiming (hlt : attempt + 1 < 40) (hdir : s.dir = some d)
    (hclaim : d.claim = none) :
    (aloneAt controller s token proc takeover
      (.claiming attempt d.identity d.owner)).Succeeds terminates := by
  have hmkdir : stepPhase s token ⟨proc, takeover, .claiming attempt d.identity d.owner⟩
      (.claiming attempt d.identity d.owner) .done =
      some ({ s with dir := some (d.claimBy token) }, .checking attempt d.identity d.owner) := by
    rw [stepPhase, hdir]
    simp only [hclaim, Option.isSome_none, Bool.false_eq_true, if_false]
  have hstat : stepPhase { s with dir := some (d.claimBy token) } token
      ⟨proc, takeover, .checking attempt d.identity d.owner⟩
      (.checking attempt d.identity d.owner) .done =
      some ({ s with dir := some (d.claimBy token) }, .verifying attempt d.identity d.owner) :=
    congrArg some (Prod.ext rfl (if_pos rfl))
  have hread : stepPhase { s with dir := some (d.claimBy token) } token
      ⟨proc, takeover, .verifying attempt d.identity d.owner⟩
      (.verifying attempt d.identity d.owner) .done =
      some ({ s with dir := some (d.claimBy token) }, .quarantining attempt d.identity) :=
    congrArg some (Prod.ext rfl (if_pos (unchanged_self d.owner)))
  have hrename : stepPhase { s with dir := some (d.claimBy token) } token
      ⟨proc, takeover, .quarantining attempt d.identity⟩
      (.quarantining attempt d.identity) .done =
      some ({ s with dir := none }, .making (attempt + 1)) :=
    congrArg some (Prod.ext rfl (retry_of_lt hlt))
  exact succeeds_of rfl hmkdir <| succeeds_of rfl hstat <| succeeds_of rfl hread <|
    succeeds_of rfl hrename <| succeeds_making rfl

theorem succeeds_finding (hdir : s.dir = some d) (p' : LockPhase)
    (hread : stepPhase s token ⟨proc, takeover, .reading (.acquire attempt) d.identity true⟩
      (.reading (.acquire attempt) d.identity true) .done = some (s, p'))
    (h : (aloneAt controller s token proc takeover p').Succeeds terminates) :
    (aloneAt controller s token proc takeover (.making attempt)).Succeeds terminates := by
  have hmkdir : stepPhase s token ⟨proc, takeover, .making attempt⟩ (.making attempt) .done =
      some (s, .stating (.acquire attempt)) := by
    rw [stepPhase, hdir]
  have hstat : stepPhase s token ⟨proc, takeover, .stating (.acquire attempt)⟩
      (.stating (.acquire attempt)) (.stat true) =
      some (s, .reading (.acquire attempt) d.identity true) := by
    rw [stepPhase, hdir]
  exact succeeds_of rfl hmkdir <| succeeds_of rfl hstat <| succeeds_of rfl hread h

theorem succeeds_invalid (hlt : attempt + 1 < 40) (hdir : s.dir = some d)
    (hclaim : d.claim = none) (howner : d.owner = none) :
    (aloneAt controller s token proc takeover (.making attempt)).Succeeds terminates := by
  refine succeeds_finding hdir _ ?_ (succeeds_claiming hlt hdir hclaim)
  rw [stepPhase, LockState.readOwner, hdir, Option.bind_some, howner]
  rfl

theorem succeeds_stale (hlt : attempt + 1 < 40) (hdir : s.dir = some d)
    (hclaim : d.claim = none) (howner : d.owner = some owner) (hdead : owner.proc ∈ s.dead)
    (hrunning : controller.takesForRunning owner.proc = false) :
    (aloneAt controller s token proc takeover (.making attempt)).Succeeds terminates := by
  refine succeeds_finding hdir (.judging (.acquire attempt) d.identity owner) ?_ ?_
  · rw [stepPhase, LockState.readOwner, hdir, Option.bind_some, howner]
  have hjudge : stepPhase s token ⟨proc, takeover, .judging (.acquire attempt) d.identity owner⟩
      (.judging (.acquire attempt) d.identity owner) (.judged false) =
      some (s, .claiming attempt d.identity d.owner) := by
    rw [stepPhase, if_neg Bool.false_ne_true, if_pos hdead, howner]
    rfl
  refine succeeds_of ?_ hjudge (succeeds_claiming hlt hdir hclaim)
  rw [← hrunning]
  rfl

theorem takesForRunning_without (hrecovers : controller.recovers terminates owner.proc = true) :
    (controller.without owner.proc.pid).takesForRunning owner.proc = false := by
  rw [Controller.recovers, Bool.and_eq_true, Bool.not_eq_true'] at hrecovers
  have halive : (controller.without owner.proc.pid).isAlive owner.proc.pid = false := by
    rw [Controller.without]
    simp only [ne_eq, not_true_eq_false, decide_false, Bool.false_and]
  rw [Controller.takesForRunning, Controller.isSameProcess, halive, Bool.false_and, Bool.or_false]
  exact hrecovers.1

theorem succeeds_takeover (hlt : attempt + 2 < 40) (hdir : s.dir = some d)
    (hclaim : d.claim = none) (howner : d.owner = some owner) (hdead : owner.proc ∈ s.dead)
    (hrunning : controller.takesForRunning owner.proc = true)
    (hrecovers : controller.recovers terminates owner.proc = true) :
    (aloneAt controller s token proc true (.making attempt)).Succeeds terminates := by
  refine succeeds_finding hdir (.judging (.acquire attempt) d.identity owner) ?_ ?_
  · rw [stepPhase, LockState.readOwner, hdir, Option.bind_some, howner]
  have hjudge : stepPhase s token ⟨proc, true, .judging (.acquire attempt) d.identity owner⟩
      (.judging (.acquire attempt) d.identity owner) (.judged true) =
      some (s, .recovering attempt owner) := rfl
  have hrecover : stepPhase s token ⟨proc, true, .recovering attempt owner⟩
      (.recovering attempt owner) (.recovered true) = some (s, .making (attempt + 1)) :=
    congrArg some (Prod.ext rfl (retry_of_lt (Nat.lt_of_succ_lt hlt)))
  refine succeeds_of ?_ hjudge (succeeds_of ?_ hrecover ?_)
  · rw [← hrunning]
    rfl
  · rw [← hrecovers]
    rfl
  · have hafter : Alone.after terminates
        (aloneAt controller s token proc true (.recovering attempt owner)) =
          controller.without owner.proc.pid := if_pos hrecovers
    show (aloneAt (Alone.after terminates
      (aloneAt controller s token proc true (.recovering attempt owner))) s token proc true
      (.making (attempt + 1))).Succeeds terminates
    rw [hafter]
    exact succeeds_stale hlt hdir hclaim howner hdead (takesForRunning_without hrecovers)

theorem succeeds_of_recoverable (hdead : OwnerDead s)
    (h : Recoverable terminates controller takeover s) :
    (acquireAlone controller s token proc takeover).Succeeds terminates := by
  cases hdir : s.dir with
  | none => exact succeeds_making hdir
  | some d =>
    obtain ⟨hclaim, howner⟩ := h d hdir
    cases hd : d.owner with
    | none => exact succeeds_invalid (by decide) hdir hclaim hd
    | some owner =>
      have hdead' := hdead d owner hdir hd
      cases hrunning : controller.takesForRunning owner.proc with
      | false => exact succeeds_stale (by decide) hdir hclaim hd hdead' hrunning
      | true =>
        rcases howner owner hd with hno | ⟨rfl, hrecovers⟩
        · cases hrunning.symm.trans hno
        · exact succeeds_takeover (by decide) hdir hclaim hd hdead' hrunning hrecovers

/-! ## What is blocked -/

def LockPhase.waits : LockPhase → Bool
  | .making _ | .stating (.acquire _) | .reading (.acquire _) _ _ | .judging (.acquire _) _ _
  | .recovering _ _ | .claiming _ _ _ | .over _ => true
  | _ => false

theorem waits_retry (attempt : Nat) : (retry attempt).waits = true := by
  rw [retry]
  split_ifs <;> rfl

theorem waits_inspected (takeover : Bool) (identity : Nat) (owner : Option Owner)
    (state : InspectionState) (attempt : Nat) :
    (inspected takeover identity owner state (.acquire attempt)).waits = true := by
  cases state with
  | missing => exact waits_retry attempt
  | initializing => exact waits_retry attempt
  | active => cases takeover <;> cases owner <;> rfl
  | stale => rfl
  | invalid => rfl

theorem Alone.step_eq_some (h : a.step terminates () = some b) :
    ∃ x s' p', a.answer terminates = some x ∧
      stepPhase a.shared a.token a.task a.task.phase x = some (s', p') ∧
      b = { a with
        shared := s'
        task := { a.task with phase := p' }
        controller := a.after terminates } := by
  rw [Alone.step, Option.bind_eq_some_iff] at h
  obtain ⟨x, hx, h⟩ := h
  obtain ⟨⟨s', p'⟩, hstep, rfl⟩ := Option.map_eq_some_iff.mp h
  exact ⟨x, s', p', hx, hstep, rfl⟩

/-- A call that has not got past the directory. -/
structure Waiting (d : LockDir) (a : Alone) : Prop where
  dir : a.shared.dir = some d
  waits : a.task.phase.waits = true

theorem Waiting.step (h : Waiting d a)
    (hclaim : ∀ attempt identity owner, a.task.phase = .claiming attempt identity owner →
      d.claim.isSome = true)
    (hstep : a.step terminates () = some b) : Waiting d b := by
  obtain ⟨hdir, hwaits⟩ := h
  obtain ⟨x, s', p', hanswer, hphase, rfl⟩ := Alone.step_eq_some hstep
  suffices hkept : s' = a.shared ∧ p'.waits = true from ⟨hkept.1.symm ▸ hdir, hkept.2⟩
  rw [Alone.answer] at hanswer
  cases hp : a.task.phase with
  | making attempt =>
    rw [hp] at hphase hanswer
    cases hanswer
    rw [stepPhase, hdir] at hphase
    cases hphase
    exact ⟨rfl, rfl⟩
  | stating purpose =>
    rw [hp] at hphase hanswer hwaits
    cases purpose with
    | inspect => cases hwaits
    | acquire attempt =>
      cases hanswer
      rw [stepPhase, hdir] at hphase
      cases hphase
      exact ⟨rfl, rfl⟩
  | reading purpose identity aged =>
    rw [hp] at hphase hanswer hwaits
    cases purpose with
    | inspect => cases hwaits
    | acquire attempt =>
      cases hanswer
      rw [stepPhase] at hphase
      cases howner : a.shared.readOwner with
      | none =>
        rw [howner] at hphase
        cases hphase
        exact ⟨rfl, waits_inspected ..⟩
      | some owner =>
        rw [howner] at hphase
        cases hphase
        exact ⟨rfl, rfl⟩
  | judging purpose identity owner =>
    rw [hp] at hphase hanswer hwaits
    cases purpose with
    | inspect => cases hwaits
    | acquire attempt =>
      cases hanswer
      rw [stepPhase] at hphase
      split_ifs at hphase <;> cases hphase <;> exact ⟨rfl, waits_inspected ..⟩
  | recovering attempt owner =>
    rw [hp] at hphase hanswer
    cases hanswer
    cases hphase
    refine ⟨rfl, ?_⟩
    split_ifs
    · exact waits_retry attempt
    · rfl
  | claiming attempt identity owner =>
    rw [hp] at hphase hanswer
    cases hanswer
    rw [stepPhase, hdir] at hphase
    simp only [hclaim _ _ _ hp, if_true] at hphase
    cases hphase
    exact ⟨rfl, waits_retry attempt⟩
  | «over» ending =>
    rw [hp] at hanswer
    cases hanswer
  | _ =>
    rw [hp] at hwaits
    cases hwaits

def LockPhase.AsksFor (owner : Owner) (takeover : Bool) : LockPhase → Prop
  | .judging _ _ o => o = owner
  | .recovering _ o => o = owner ∧ takeover = true
  | .claiming _ _ _ => False
  | _ => True

/-- The owner of the directory is taken for running, and not taken over from. -/
structure Refused (terminates : Proc → Bool) (d : LockDir) (owner : Owner) (a : Alone) : Prop
    extends Waiting d a where
  named : d.owner = some owner
  running : a.controller.takesForRunning owner.proc = true
  refused : a.task.takeover = true → a.controller.recovers terminates owner.proc = false
  asks : a.task.phase.AsksFor owner a.task.takeover

theorem Refused.step (h : Refused terminates d owner a) (hstep : a.step terminates () = some b) :
    Refused terminates d owner b := by
  have hwaiting := h.toWaiting.step (fun _ _ _ hp ↦ by
    have hasks := h.asks
    rw [hp] at hasks
    exact hasks.elim) hstep
  obtain ⟨⟨hdir, hwaits⟩, howner, hrunning, hrefused, hasks⟩ := h
  obtain ⟨x, s', p', hanswer, hphase, rfl⟩ := Alone.step_eq_some hstep
  suffices hkept : a.after terminates = a.controller ∧ p'.AsksFor owner a.task.takeover from
    ⟨hwaiting, howner, by rw [hkept.1]; exact hrunning, by rw [hkept.1]; exact hrefused, hkept.2⟩
  rw [Alone.answer] at hanswer
  rw [Alone.after]
  cases hp : a.task.phase with
  | making attempt =>
    rw [hp] at hphase hanswer
    cases hanswer
    rw [stepPhase, hdir] at hphase
    cases hphase
    exact ⟨rfl, trivial⟩
  | stating purpose =>
    rw [hp] at hphase hanswer
    cases hanswer
    rw [stepPhase, hdir] at hphase
    cases hphase
    exact ⟨rfl, trivial⟩
  | reading purpose identity aged =>
    rw [hp] at hphase hanswer
    cases hanswer
    rw [stepPhase, LockState.readOwner, hdir, Option.bind_some, howner] at hphase
    cases hphase
    exact ⟨rfl, rfl⟩
  | judging purpose identity owner' =>
    rw [hp] at hphase hanswer hwaits hasks
    obtain rfl : owner' = owner := hasks
    cases purpose with
    | inspect => cases hwaits
    | acquire attempt =>
      cases hanswer
      rw [stepPhase, if_pos hrunning] at hphase
      cases hphase
      refine ⟨rfl, ?_⟩
      cases htakeover : a.task.takeover with
      | true => exact ⟨rfl, rfl⟩
      | false => exact trivial
  | recovering attempt owner' =>
    rw [hp] at hphase hanswer hasks
    obtain ⟨rfl, htakeover⟩ := hasks
    have hno : ¬ a.controller.recovers terminates owner'.proc = true := by
      rw [hrefused htakeover]
      exact Bool.false_ne_true
    cases hanswer
    cases hphase
    rw [if_neg hno]
    exact ⟨if_neg hno, trivial⟩
  | «over» ending =>
    rw [hp] at hanswer
    cases hanswer
  | claiming attempt identity owner' =>
    rw [hp] at hasks
    exact hasks.elim
  | _ =>
    rw [hp] at hwaits
    cases hwaits

theorem Waiting.not_held (h : Waiting d a) : a.task.phase ≠ .held := by
  intro hheld
  have hwaits := h.waits
  rw [hheld] at hwaits
  cases hwaits

theorem recoverable_of_succeeds
    (h : (acquireAlone controller s token proc takeover).Succeeds terminates) :
    Recoverable terminates controller takeover s := by
  obtain ⟨b, hreach, hheld⟩ := h
  intro d hdir
  have hwaiting : Waiting d (acquireAlone controller s token proc takeover) := ⟨hdir, rfl⟩
  constructor
  · by_contra hclaim
    have hsome := Option.isSome_iff_ne_none.mpr hclaim
    have hb : Waiting d b := hreach.invariant hwaiting fun _ _ _ hW _ hstep ↦
      hW.step (fun _ _ _ _ ↦ hsome) hstep
    exact hb.not_held hheld
  · intro owner howner
    by_contra hno
    push Not at hno
    have hb : Refused terminates d owner b := by
      refine hreach.invariant ⟨hwaiting, howner, ?_, ?_, trivial⟩ fun _ _ _ hW _ hstep ↦ hW.step hstep
      · exact Bool.not_eq_false _ |>.mp hno.1
      · exact fun htakeover ↦ Bool.not_eq_true _ |>.mp (hno.2 htakeover)
    exact hb.toWaiting.not_held hheld

/-- **A call by itself acquires the lock** exactly when it is not blocked. -/
theorem acquires_iff (hdead : OwnerDead s) :
    (acquireAlone controller s token proc takeover).Succeeds terminates ↔
      Recoverable terminates controller takeover s :=
  ⟨recoverable_of_succeeds, succeeds_of_recoverable hdead⟩

end OpenAlice.Guardian
