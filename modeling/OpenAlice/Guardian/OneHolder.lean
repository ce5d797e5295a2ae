import OpenAlice.Guardian.RuntimeLock

/-!
# At most one process holds the runtime lock

A process that takes longer than the grace between making the lock directory and naming itself in
it is taken for one that has crashed, and names itself later in the directory of another.  And a
process that gives up a claim removes whatever claim stands in the directory by then.  In a run in
which neither happens, at most one process that runs holds the lock, and its directory stands
(`one_holder`).

The invariant follows the directory by its identity.  A directory is abandoned when the call that
has made it is over or its process is dead, and stays so; whoever is about to rename a directory
away has found that one abandoned, and has its claim in it.
-/

namespace OpenAlice.Guardian

open OpenAlice.Run

/-! ## What is claimed -/

def LockPhase.needsDir : LockPhase → Bool
  | .writing | .publishing | .held | .beatReading _ | .beatWriting _ | .beatRenaming _
  | .releasing | .removing => true
  | _ => false

def LockPhase.unpublished : LockPhase → Bool
  | .writing | .publishing => true
  | _ => false

/-- The lock was returned, and is neither released nor reported as lost. -/
def LockPhase.holds : LockPhase → Bool
  | .held | .beatReading false | .beatWriting false | .beatRenaming false => true
  | _ => false

def HoldsLock (W : World LockState LockTask) (i : Nat) : Prop :=
  ∃ t, W.tasks[i]? = some t ∧ t.proc ∉ W.shared.dead ∧ t.phase.holds = true

/-- **At most one process holds the lock**, and nobody has removed its directory. -/
structure OneHolder (W : World LockState LockTask) : Prop where
  one : ∀ i j, HoldsLock W i → HoldsLock W j → i = j
  stands : ∀ i, HoldsLock W i → ∃ d t, W.tasks[i]? = some t ∧ W.shared.dir = some d ∧
    d.maker = i ∧ d.owner = some ⟨i, t.proc⟩

/-- The steps that are in time: a directory that looks older than the grace is not one that a
process which runs has yet to name itself in, and who gives up a claim finds no other. -/
def InTime (W : World LockState LockTask) : Event LockCall LockAnswer → Prop
  | .resume _ (.stat true) => ∀ d t, W.shared.dir = some d → W.tasks[d.maker]? = some t →
      t.proc ∉ W.shared.dead → t.phase.unpublished = false
  | .resume i .done => ∀ t attempt d, W.tasks[i]? = some t → t.phase = .unclaiming attempt →
      W.shared.dir = some d → d.claim = none ∨ d.claim = some i
  | _ => True

/-! ## The invariant -/

section Invariant

variable (W : World LockState LockTask)

def Abandoned (d : LockDir) : Prop :=
  ∃ t, W.tasks[d.maker]? = some t ∧ (t.proc ∈ W.shared.dead ∨ ∃ ending, t.phase = .over ending)

def Doomed (identity : Nat) : Prop :=
  identity < W.shared.made ∧
    ∀ d, W.shared.dir = some d → d.identity = identity → Abandoned W d

def ClaimedBy (i identity : Nat) : Prop :=
  ∀ d, W.shared.dir = some d → d.identity = identity → d.claim = some i

def Knows (i : Nat) : LockPhase → Prop
  | .reading _ identity aged => identity < W.shared.made ∧ (aged = true →
      ∀ d, W.shared.dir = some d → d.identity = identity → d.owner = none → Abandoned W d)
  | .judging _ identity owner => identity < W.shared.made ∧
      ∀ d, W.shared.dir = some d → d.identity = identity → d.owner = some owner
  | .claiming _ identity _ => Doomed W identity
  | .checking _ identity _ => Doomed W identity ∧ ClaimedBy W i identity
  | .verifying _ identity _ => Doomed W identity ∧ ClaimedBy W i identity ∧
      ∃ d, W.shared.dir = some d ∧ d.identity = identity
  | .quarantining _ identity => Doomed W identity ∧ ClaimedBy W i identity ∧
      ∃ d, W.shared.dir = some d ∧ d.identity = identity
  | _ => True

/-- **What holds in every state.** -/
structure Guarded : Prop where
  fresh : ∀ d, W.shared.dir = some d → d.identity < W.shared.made
  maker : ∀ d, W.shared.dir = some d → ∃ t, W.tasks[d.maker]? = some t ∧
    (t.phase.needsDir = true ∨ ∃ ending, t.phase = .over ending)
  owner : ∀ d owner t, W.shared.dir = some d → d.owner = some owner →
    W.tasks[d.maker]? = some t → owner = ⟨d.maker, t.proc⟩
  needed : ∀ (i : Nat) t, W.tasks[i]? = some t → t.proc ∉ W.shared.dead →
    t.phase.needsDir = true → ∃ d, W.shared.dir = some d ∧ d.maker = i ∧
      d.owner = if t.phase.unpublished then none else some ⟨i, t.proc⟩
  knows : ∀ (i : Nat) t, W.tasks[i]? = some t → Knows W i t.phase

end Invariant

variable {W W' : World LockState LockTask} {i j : Nat} {d d' : LockDir} {t t' : LockTask}
  {s s' : LockState} {p p' : LockPhase} {identity : Nat}

/-! ## What a step leaves alone -/

/-- What a step of one call does to the directory, as far as others know it. -/
structure Frame (W W' : World LockState LockTask) (i : Nat) : Prop where
  made : W.shared.made ≤ W'.shared.made
  dead : W.shared.dead ⊆ W'.shared.dead
  others : ∀ j, j ≠ i → W'.tasks[j]? = W.tasks[j]?
  self : ∀ t, W.tasks[i]? = some t → ∃ t', W'.tasks[i]? = some t' ∧ t'.proc = t.proc ∧
    ∀ ending, t.phase = .over ending → t'.phase = .over ending
  dirs : ∀ d', W'.shared.dir = some d' → W.shared.made ≤ d'.identity ∨
    ∃ d, W.shared.dir = some d ∧ d'.identity = d.identity ∧ d'.maker = d.maker ∧
      (∀ owner, d.owner = some owner → d'.owner = some owner) ∧
      ∀ j, j ≠ i → d.claim = some j → d'.claim = some j
  claimed : ∀ d j, W.shared.dir = some d → Abandoned W d → j ≠ i → d.claim = some j →
    ∃ d', W'.shared.dir = some d' ∧ d'.identity = d.identity

namespace Frame

theorem abandoned (h : Frame W W' i) (hmaker : d'.maker = d.maker) (hd : Abandoned W d) :
    Abandoned W' d' := by
  obtain ⟨t, ht, hover⟩ := hd
  rw [Abandoned, hmaker]
  by_cases hi : d.maker = i
  · subst hi
    obtain ⟨t', ht', hproc, hend⟩ := h.self t ht
    refine ⟨t', ht', ?_⟩
    rcases hover with hdead | ⟨ending, hover⟩
    · exact .inl (hproc ▸ h.dead hdead)
    · exact .inr ⟨ending, hend ending hover⟩
  · refine ⟨t, (h.others _ hi).trans ht, ?_⟩
    rcases hover with hdead | hover
    · exact .inl (h.dead hdead)
    · exact .inr hover

theorem doomed (h : Frame W W' i) (hd : Doomed W identity) : Doomed W' identity := by
  refine ⟨Nat.lt_of_lt_of_le hd.1 h.made, fun d' hdir hid ↦ ?_⟩
  rcases h.dirs d' hdir with hnew | ⟨d, hold, hidentity, hmaker, -⟩
  · exact absurd hd.1 (by omega)
  · exact h.abandoned hmaker (hd.2 d hold (hidentity ▸ hid))

theorem claimedBy (h : Frame W W' i) (hlt : identity < W.shared.made) (hj : j ≠ i)
    (hc : ClaimedBy W j identity) : ClaimedBy W' j identity := by
  intro d' hdir hid
  rcases h.dirs d' hdir with hnew | ⟨d, hold, hidentity, -, -, hclaim⟩
  · exact absurd hlt (by omega)
  · exact hclaim j hj (hc d hold (hidentity ▸ hid))

theorem stands (h : Frame W W' i) (hj : j ≠ i) (hd : Doomed W identity)
    (hc : ClaimedBy W j identity) (hs : ∃ d, W.shared.dir = some d ∧ d.identity = identity) :
    ∃ d, W'.shared.dir = some d ∧ d.identity = identity := by
  obtain ⟨d, hdir, hid⟩ := hs
  obtain ⟨d', hdir', hid'⟩ := h.claimed d j hdir (hd.2 d hdir hid) hj (hc d hdir hid)
  exact ⟨d', hdir', hid'.trans hid⟩

theorem knows (h : Frame W W' i) (hj : j ≠ i) (hk : Knows W j p) : Knows W' j p := by
  cases p with
  | reading purpose identity aged =>
    refine ⟨Nat.lt_of_lt_of_le hk.1 h.made, fun haged d' hdir hid hnone ↦ ?_⟩
    rcases h.dirs d' hdir with hnew | ⟨d, hold, hidentity, hmaker, howner, -⟩
    · exact absurd hk.1 (by omega)
    refine h.abandoned hmaker (hk.2 haged d hold (hidentity ▸ hid) ?_)
    cases hd : d.owner with
    | none => rfl
    | some owner => cases hnone.symm.trans (howner owner hd)
  | judging purpose identity owner =>
    refine ⟨Nat.lt_of_lt_of_le hk.1 h.made, fun d' hdir hid ↦ ?_⟩
    rcases h.dirs d' hdir with hnew | ⟨d, hold, hidentity, -, howner, -⟩
    · exact absurd hk.1 (by omega)
    · exact howner owner (hk.2 d hold (hidentity ▸ hid))
  | claiming attempt identity owner => exact h.doomed hk
  | checking attempt identity owner => exact ⟨h.doomed hk.1, h.claimedBy hk.1.1 hj hk.2⟩
  | verifying attempt identity owner =>
    obtain ⟨hd, hc, hs⟩ := hk
    exact ⟨h.doomed hd, h.claimedBy hd.1 hj hc, h.stands hj hd hc hs⟩
  | quarantining attempt identity =>
    obtain ⟨hd, hc, hs⟩ := hk
    exact ⟨h.doomed hd, h.claimedBy hd.1 hj hc, h.stands hj hd hc hs⟩
  | _ => trivial

/-- What a call knows stays true while the directory is left alone. -/
theorem knows_same (h : Frame W W' i) (hshared : W'.shared = W.shared) (hk : Knows W j p) :
    Knows W' j p := by
  cases p with
  | reading purpose identity aged =>
    obtain ⟨hlt, haged⟩ := hk
    rw [← hshared] at hlt haged
    exact ⟨hlt, fun ha d hdir hid hnone ↦ h.abandoned rfl (haged ha d hdir hid hnone)⟩
  | judging purpose identity owner =>
    rw [Knows, hshared]
    exact hk
  | claiming attempt identity owner => exact h.doomed hk
  | checking attempt identity owner =>
    refine ⟨h.doomed hk.1, ?_⟩
    rw [ClaimedBy, hshared]
    exact hk.2
  | verifying attempt identity owner =>
    refine ⟨h.doomed hk.1, ?_⟩
    rw [ClaimedBy, hshared]
    exact hk.2
  | quarantining attempt identity =>
    refine ⟨h.doomed hk.1, ?_⟩
    rw [ClaimedBy, hshared]
    exact hk.2
  | _ => trivial

end Frame

/-! ## What a step does to the directory -/

/-- What a call does to the directory: nothing, or one of these. -/
inductive DirStep (W : World LockState LockTask) (i : Nat) (t : LockTask) : LockState → Prop
  | same : DirStep W i t W.shared
  | made (hdir : W.shared.dir = none) : DirStep W i t
      { W.shared with
        dir := some { identity := W.shared.made, maker := i }, made := W.shared.made + 1 }
  | wrote {d : LockDir} (hdir : W.shared.dir = some d) :
      DirStep W i t { W.shared with dir := some (d.writeTemp i) }
  | published {d : LockDir} (hdir : W.shared.dir = some d) (hmaker : d.maker = i) :
      DirStep W i t { W.shared with dir := some (d.renameTemp ⟨i, t.proc⟩) }
  | claimed {d : LockDir} (hdir : W.shared.dir = some d) (hclaim : d.claim = none) :
      DirStep W i t { W.shared with dir := some (d.claimBy i) }
  | unclaimed (hclaim : ∀ d, W.shared.dir = some d → d.claim = none ∨ d.claim = some i) :
      DirStep W i t { W.shared with dir := W.shared.dir.map LockDir.unclaim }
  | removed {d : LockDir} (hdir : W.shared.dir = some d)
      (hown : d.maker = i ∨ d.claim = some i ∧ Abandoned W d) :
      DirStep W i t { W.shared with dir := none }

namespace DirStep

variable (h : DirStep W i t s')
include h

theorem dead : s'.dead = W.shared.dead := by
  cases h <;> rfl

theorem made_le : W.shared.made ≤ s'.made := by
  cases h
  case made => exact Nat.le_succ _
  all_goals exact Nat.le_refl _

/-- A directory is new, or as it was but for what the call has done. -/
theorem old (hdir' : s'.dir = some d') :
    W.shared.dir = none ∧ d'.identity = W.shared.made ∧ s'.made = W.shared.made + 1 ∧
        d'.maker = i ∧ d'.owner = none ∨
      ∃ d, W.shared.dir = some d ∧ d'.identity = d.identity ∧ d'.maker = d.maker ∧
        (d'.owner = d.owner ∨ d.maker = i ∧ d'.owner = some ⟨i, t.proc⟩) ∧
        ∀ j, j ≠ i → d.claim = some j → d'.claim = some j := by
  cases h with
  | same => exact .inr ⟨d', hdir', rfl, rfl, .inl rfl, fun _ _ ↦ id⟩
  | made hdir =>
    cases hdir'
    exact .inl ⟨hdir, rfl, rfl, rfl, rfl⟩
  | wrote hdir =>
    cases hdir'
    exact .inr ⟨_, hdir, rfl, rfl, .inl rfl, fun _ _ ↦ id⟩
  | published hdir hmaker =>
    cases hdir'
    exact .inr ⟨_, hdir, rfl, rfl, .inr ⟨hmaker, rfl⟩, fun _ _ ↦ id⟩
  | claimed hdir hclaim =>
    cases hdir'
    exact .inr ⟨_, hdir, rfl, rfl, .inl rfl, fun _ _ hj ↦ nomatch hclaim.symm.trans hj⟩
  | unclaimed hclaim =>
    obtain ⟨d, hdir, rfl⟩ := Option.map_eq_some_iff.mp hdir'
    refine .inr ⟨d, hdir, rfl, rfl, .inl rfl, fun j hne hj ↦ ?_⟩
    rcases hclaim d hdir with hnone | hself
    · cases hnone.symm.trans hj
    · exact absurd (Option.some.inj (hj.symm.trans hself)) hne
  | removed => cases hdir'

/-- A directory is removed, or stands as it was but for what the call has done. -/
theorem kept (hdir : W.shared.dir = some d) : (d.maker = i ∨ d.claim = some i ∧ Abandoned W d) ∨
      ∃ d', s'.dir = some d' ∧ d'.identity = d.identity ∧ d'.maker = d.maker ∧
        (d'.owner = d.owner ∨ d.maker = i) := by
  cases h with
  | same => exact .inr ⟨d, hdir, rfl, rfl, .inl rfl⟩
  | made hnone => cases hnone.symm.trans hdir
  | wrote hold =>
    cases hold.symm.trans hdir
    exact .inr ⟨_, rfl, rfl, rfl, .inl rfl⟩
  | published hold hmaker =>
    cases hold.symm.trans hdir
    exact .inr ⟨_, rfl, rfl, rfl, .inr hmaker⟩
  | claimed hold hclaim =>
    cases hold.symm.trans hdir
    exact .inr ⟨_, rfl, rfl, rfl, .inl rfl⟩
  | unclaimed =>
    exact .inr ⟨_, congrArg (Option.map LockDir.unclaim) hdir, rfl, rfl, .inl rfl⟩
  | removed hold hown =>
    cases hold.symm.trans hdir
    exact .inl hown

end DirStep

theorem not_abandoned (hi : W.tasks[i]? = some t) (hlive : t.proc ∉ W.shared.dead)
    (hover : ∀ ending, t.phase ≠ .over ending) (hmaker : d.maker = i) : ¬ Abandoned W d := by
  rintro ⟨t', ht', hdead⟩
  rw [hmaker, hi] at ht'
  cases ht'
  rcases hdead with hdead | ⟨ending, hend⟩
  · exact hlive hdead
  · exact hover ending hend

section Move

variable (h : Guarded W) (hi : W.tasks[i]? = some t) (hlive : t.proc ∉ W.shared.dead)
  (hover : ∀ ending, t.phase ≠ .over ending) (hstep : DirStep W i t s')
include h hi hlive hover hstep

theorem DirStep.frame : Frame W ⟨s', W.tasks.set i { t with phase := p' }⟩ i where
  made := hstep.made_le
  dead := hstep.dead ▸ List.Subset.refl _
  others j hj := List.getElem?_set_ne hj.symm
  self t₀ ht₀ := by
    cases hi.symm.trans ht₀
    exact ⟨_, List.getElem?_set_self (List.getElem?_eq_some_iff.mp hi).1, rfl,
      fun ending hend ↦ absurd hend (hover ending)⟩
  dirs d' hdir' := by
    rcases hstep.old hdir' with ⟨-, hid, -⟩ | ⟨d, hdir, hid, hmaker, howner, hclaim⟩
    · exact .inl (Nat.le_of_eq hid.symm)
    refine .inr ⟨d, hdir, hid, hmaker, fun owner hsome ↦ ?_, hclaim⟩
    rcases howner with hsame | ⟨hself, hnew⟩
    · exact hsame.trans hsome
    · rw [hnew, h.owner d owner t hdir hsome (hself ▸ hi), hself]
  claimed d j hdir hab hj hclaim := by
    rcases hstep.kept hdir with (hself | ⟨hclaim', -⟩) | ⟨d', hdir', hid, -⟩
    · exact absurd hab (not_abandoned hi hlive hover hself)
    · exact absurd (Option.some.inj (hclaim.symm.trans hclaim')) hj
    · exact ⟨d', hdir', hid⟩

theorem Guarded.move
    (hkeeps : t.phase.needsDir = true → p'.needsDir = true ∨ ∃ ending, p' = .over ending)
    (hmade : W.shared.dir = none → s'.dir ≠ none → p'.needsDir = true)
    (hself : p'.needsDir = true → ∃ d', s'.dir = some d' ∧ d'.maker = i ∧
      d'.owner = if p'.unpublished then none else some ⟨i, t.proc⟩)
    (hknows : Knows ⟨s', W.tasks.set i { t with phase := p' }⟩ i p') :
    Guarded ⟨s', W.tasks.set i { t with phase := p' }⟩ := by
  have self : (W.tasks.set i { t with phase := p' })[i]? = some { t with phase := p' } :=
    List.getElem?_set_self (List.getElem?_eq_some_iff.mp hi).1
  have hframe : Frame W ⟨s', W.tasks.set i { t with phase := p' }⟩ i := hstep.frame h hi hlive hover
  constructor
  case fresh =>
    intro d' hdir'
    rcases hstep.old hdir' with ⟨-, hid, hmade', -⟩ | ⟨d, hdir, hid, -⟩
    · exact hid ▸ hmade' ▸ Nat.lt_succ_self _
    · exact hid ▸ Nat.lt_of_lt_of_le (h.fresh d hdir) hstep.made_le
  case maker =>
    intro d' hdir'
    rcases hstep.old hdir' with ⟨hnone, -, -, hmaker, -⟩ | ⟨d, hdir, -, hmaker, -⟩
    · refine ⟨{ t with phase := p' }, ?_, .inl (hmade hnone (by rw [hdir']; nofun))⟩
      rw [hmaker]
      exact self
    obtain ⟨t₀, ht₀, hphase⟩ := h.maker d hdir
    rw [hmaker]
    by_cases hdi : d.maker = i
    · rw [hdi] at ht₀ ⊢
      cases hi.symm.trans ht₀
      rcases hphase with hneeds | ⟨ending, hend⟩
      · exact ⟨_, self, hkeeps hneeds⟩
      · exact absurd hend (hover ending)
    · exact ⟨t₀, (List.getElem?_set_ne (Ne.symm hdi)).trans ht₀, hphase⟩
  case owner =>
    intro d' owner t₀ hdir' howner ht₀
    rcases hstep.old hdir' with ⟨-, -, -, -, hnone⟩ | ⟨d, hdir, -, hmaker, hsame, -⟩
    · cases hnone.symm.trans howner
    rw [hmaker] at ht₀ ⊢
    rcases hsame with hsame | ⟨hdi, hnew⟩
    · rcases World.task_set ht₀ with ⟨hdi, rfl⟩ | ⟨-, hold⟩
      · exact h.owner d owner t hdir (hsame.symm.trans howner) (hdi ▸ hi)
      · exact h.owner d owner t₀ hdir (hsame.symm.trans howner) hold
    rw [hdi, self] at ht₀
    cases ht₀
    rw [hdi]
    exact Option.some.inj (howner.symm.trans hnew)
  case needed =>
    intro j t₀ ht₀ hlive' hneeds
    rcases World.task_set ht₀ with ⟨rfl, rfl⟩ | ⟨hji, hold⟩
    · exact hself hneeds
    have hlive₀ : t₀.proc ∉ W.shared.dead := hstep.dead ▸ hlive'
    obtain ⟨d, hdir, rfl, howner⟩ := h.needed j t₀ hold hlive₀ hneeds
    rcases hstep.kept hdir with (hdi | ⟨-, hab⟩) | ⟨d', hdir', -, hmaker, hsame⟩
    · exact absurd hdi hji
    · refine absurd hab (not_abandoned hold hlive₀ ?_ rfl)
      rintro ending hend
      rw [hend] at hneeds
      cases hneeds
    · refine ⟨d', hdir', hmaker, ?_⟩
      rcases hsame with hsame | hdi
      · exact hsame.trans howner
      · exact absurd hdi hji
  case knows =>
    intro j t₀ ht₀
    rcases World.task_set ht₀ with ⟨rfl, rfl⟩ | ⟨hji, hold⟩
    · exact hknows
    · exact hframe.knows hji (h.knows j t₀ hold)

end Move

/-! ## One step -/

section Phases

variable (h : Guarded W) (hi : W.tasks[i]? = some t) (hlive : t.proc ∉ W.shared.dead)
include h hi hlive

theorem Guarded.look (hbefore : t.phase.needsDir = false)
    (hover : ∀ ending, t.phase ≠ .over ending) (hstep : DirStep W i t s')
    (hmade : W.shared.dir = none → s'.dir = none) (hafter : p'.needsDir = false)
    (hknows : Knows ⟨s', W.tasks.set i { t with phase := p' }⟩ i p') :
    Guarded ⟨s', W.tasks.set i { t with phase := p' }⟩ := by
  refine h.move hi hlive hover hstep ?_ (fun hnone hsome ↦ absurd (hmade hnone) hsome) ?_ hknows
  · intro hneeds
    cases hbefore.symm.trans hneeds
  · intro hneeds
    cases hafter.symm.trans hneeds

theorem Guarded.own (hneeds : t.phase.needsDir = true) : ∃ d, W.shared.dir = some d ∧ d.maker = i ∧
      d.owner = if t.phase.unpublished then none else some ⟨i, t.proc⟩ :=
  h.needed i t hi hlive hneeds

theorem Guarded.hold (hneeds : t.phase.needsDir = true) (hstep : DirStep W i t s')
    (hself : p'.needsDir = true ∧ (∃ d', s'.dir = some d' ∧ d'.maker = i ∧
      d'.owner = if p'.unpublished then none else some ⟨i, t.proc⟩) ∨ ∃ ending, p' = .over ending) :
    Guarded ⟨s', W.tasks.set i { t with phase := p' }⟩ := by
  have hover : ∀ ending, t.phase ≠ .over ending := by
    intro ending hend
    rw [hend] at hneeds
    cases hneeds
  refine h.move hi hlive hover hstep ?_ ?_ ?_ ?_
  · intro _
    exact hself.imp And.left id
  · intro hnone
    obtain ⟨d, hdir, -⟩ := h.own hi hlive hneeds
    cases hnone.symm.trans hdir
  · intro hneeds'
    rcases hself with ⟨-, hdir⟩ | ⟨ending, rfl⟩
    · exact hdir
    · cases hneeds'
  · rcases hself with ⟨hneeds', -⟩ | ⟨ending, rfl⟩
    · cases p' <;> trivial
    · trivial

end Phases

def LockPhase.blank : LockPhase → Bool
  | .making _ | .recovering _ _ | .unclaiming _ | .over _ => true
  | _ => false

theorem knows_of_blank (hp : p.blank = true) : Knows W i p := by
  cases p <;> trivial

theorem needsDir_of_blank (hp : p.blank = true) : p.needsDir = false := by
  cases p <;> first | rfl | cases hp

theorem blank_retry (attempt : Nat) : (retry attempt).blank = true := by
  rw [retry]
  split_ifs <;> rfl

theorem knows_inspected {takeover : Bool} {owner : Option Owner} {state : InspectionState}
    {purpose : Purpose} (hdoomed : state = .stale ∨ state = .invalid → Doomed W identity) :
    Knows W i (inspected takeover identity owner state purpose) ∧
      (inspected takeover identity owner state purpose).needsDir = false := by
  have hblank : ∀ {p : LockPhase}, p.blank = true → Knows W i p ∧ p.needsDir = false :=
    fun hp ↦ ⟨knows_of_blank hp, needsDir_of_blank hp⟩
  cases purpose with
  | inspect => exact hblank rfl
  | acquire attempt =>
    cases state with
    | missing => exact hblank (blank_retry attempt)
    | initializing => exact hblank (blank_retry attempt)
    | active => cases takeover <;> cases owner <;> exact hblank rfl
    | stale => exact ⟨hdoomed (.inl rfl), rfl⟩
    | invalid => exact ⟨hdoomed (.inr rfl), rfl⟩

section Steps

variable (h : Guarded W) (hi : W.tasks[i]? = some t) (hlive : t.proc ∉ W.shared.dead)
include h hi hlive

theorem Guarded.glance (hbefore : t.phase.needsDir = false)
    (hover : ∀ ending, t.phase ≠ .over ending) (hafter : p'.needsDir = false)
    (hknows : Knows W i p') :
    Guarded ⟨W.shared, W.tasks.set i { t with phase := p' }⟩ := by
  refine h.look hi hlive hbefore hover .same id hafter ?_
  have hframe : Frame W ⟨W.shared, W.tasks.set i { t with phase := p' }⟩ i :=
    DirStep.same.frame h hi hlive hover
  exact hframe.knows_same rfl hknows

theorem Guarded.inspects (hbefore : t.phase.needsDir = false)
    (hover : ∀ ending, t.phase ≠ .over ending) {owner : Option Owner} {state : InspectionState}
    {purpose : Purpose} (hdoomed : state = .stale ∨ state = .invalid → Doomed W identity) :
    Guarded ⟨W.shared, W.tasks.set i
      { t with phase := inspected t.takeover identity owner state purpose }⟩ := by
  obtain ⟨hknows, hafter⟩ := knows_inspected hdoomed
  exact h.glance hi hlive hbefore hover hafter hknows

theorem Guarded.stay (hneeds : t.phase.needsDir = true) (hpublished : t.phase.unpublished = false)
    (hself : p'.needsDir = true ∧ p'.unpublished = false ∨ ∃ ending, p' = .over ending)
    (hsame : s' = W.shared) : Guarded ⟨s', W.tasks.set i { t with phase := p' }⟩ := by
  obtain ⟨d, hdir, hmaker, howner⟩ := h.own hi hlive hneeds
  rw [hpublished] at howner
  refine h.hold hi hlive hneeds (hsame ▸ .same) (hself.imp_left fun hafter ↦ ⟨hafter.1, d, ?_⟩)
  rw [hsame, hafter.2]
  exact ⟨hdir, hmaker, howner⟩

variable {a : LockAnswer} {attempt : Nat} {purpose : Purpose} {aged : Bool} {owner : Option Owner}
  (hstep : stepPhase W.shared i t t.phase a = some (s', p'))
include hstep

/-- `mkdir` of the lock directory. -/
theorem Guarded.making (hp : t.phase = .making attempt) :
    Guarded ⟨s', W.tasks.set i { t with phase := p' }⟩ := by
  have hbefore : t.phase.needsDir = false := by rw [hp]; rfl
  have hover : ∀ ending, t.phase ≠ .over ending := by rw [hp]; rintro _ ⟨⟩
  rw [hp] at hstep
  cases a with
  | done =>
    rw [stepPhase] at hstep
    cases hdir : W.shared.dir with
    | none =>
      rw [hdir] at hstep
      cases hstep
      refine h.move hi hlive hover (.made hdir) ?_ (fun _ _ ↦ rfl) ?_ trivial
      · intro hneeds
        cases hbefore.symm.trans hneeds
      · exact fun _ ↦ ⟨_, rfl, rfl, rfl⟩
    | some d =>
      rw [hdir] at hstep
      cases hstep
      exact h.glance hi hlive hbefore hover rfl trivial
  | _ => cases hstep

theorem Guarded.stating (hok : InTime W (.resume i a)) (hp : t.phase = .stating purpose) :
    Guarded ⟨s', W.tasks.set i { t with phase := p' }⟩ := by
  have hbefore : t.phase.needsDir = false := by rw [hp]; rfl
  have hover : ∀ ending, t.phase ≠ .over ending := by rw [hp]; rintro _ ⟨⟩
  rw [hp] at hstep
  cases a with
  | stat aged =>
    rw [stepPhase] at hstep
    cases hdir : W.shared.dir with
    | none =>
      rw [hdir] at hstep
      cases hstep
      exact h.inspects hi hlive hbefore hover (by rintro (hs | hs) <;> cases hs)
    | some d =>
      rw [hdir] at hstep
      cases hstep
      refine h.glance hi hlive hbefore hover rfl ⟨h.fresh d hdir, fun haged d' hdir' _ hnone ↦ ?_⟩
      subst haged
      obtain ⟨t₀, ht₀, hphase⟩ := h.maker d' hdir'
      refine ⟨t₀, ht₀, ?_⟩
      rcases hphase with hneeds | hend
      · by_contra hno
        push Not at hno
        -- Its maker runs, and has named itself: the directory has an owner.
        obtain ⟨d₀, hdir₀, -, howner⟩ := h.needed _ t₀ ht₀ hno.1 hneeds
        cases hdir'.symm.trans hdir₀
        rw [hok d' t₀ hdir' ht₀ hno.1, hnone] at howner
        cases howner
      · exact .inr hend
  | _ => cases hstep

theorem Guarded.reading (hp : t.phase = .reading purpose identity aged) :
    Guarded ⟨s', W.tasks.set i { t with phase := p' }⟩ := by
  have hbefore : t.phase.needsDir = false := by rw [hp]; rfl
  have hover : ∀ ending, t.phase ≠ .over ending := by rw [hp]; rintro _ ⟨⟩
  have hknows := h.knows i t hi
  rw [hp] at hstep hknows
  cases a with
  | done =>
    rw [stepPhase] at hstep
    cases howner : W.shared.readOwner with
    | some owner =>
      rw [howner] at hstep
      cases hstep
      refine h.glance hi hlive hbefore hover rfl ⟨hknows.1, fun d hdir _ ↦ ?_⟩
      rw [LockState.readOwner, hdir] at howner
      exact howner
    | none =>
      rw [howner] at hstep
      cases hstep
      refine h.inspects hi hlive hbefore hover fun hstate ↦ ⟨hknows.1, fun d hdir hid ↦ ?_⟩
      rw [LockState.readOwner, hdir] at howner
      cases aged with
      | true => exact hknows.2 rfl d hdir hid howner
      | false => rcases hstate with hs | hs <;> cases hs
  | _ => cases hstep

theorem Guarded.judging {owner : Owner} (hp : t.phase = .judging purpose identity owner) :
    Guarded ⟨s', W.tasks.set i { t with phase := p' }⟩ := by
  have hbefore : t.phase.needsDir = false := by rw [hp]; rfl
  have hover : ∀ ending, t.phase ≠ .over ending := by rw [hp]; rintro _ ⟨⟩
  have hknows := h.knows i t hi
  rw [hp] at hstep hknows
  cases a with
  | judged running =>
    rw [stepPhase] at hstep
    split_ifs at hstep with hrunning hdead
    · cases hstep
      exact h.inspects hi hlive hbefore hover (by rintro (hs | hs) <;> cases hs)
    · cases hstep
      refine h.inspects hi hlive hbefore hover fun _ ↦ ⟨hknows.1, fun d hdir hid ↦ ?_⟩
      obtain ⟨t₀, ht₀, -⟩ := h.maker d hdir
      have howner := h.owner d owner t₀ hdir (hknows.2 d hdir hid) ht₀
      rw [howner] at hdead
      exact ⟨t₀, ht₀, .inl hdead⟩
  | _ => cases hstep

theorem Guarded.recovering {owner : Owner} (hp : t.phase = .recovering attempt owner) :
    Guarded ⟨s', W.tasks.set i { t with phase := p' }⟩ := by
  rw [hp] at hstep
  cases a with
  | recovered ok =>
    have hblank : (if ok then retry attempt else .over .failed).blank = true := by
      split_ifs
      · exact blank_retry attempt
      · rfl
    cases hstep
    exact h.glance hi hlive (by rw [hp]; rfl) (by rw [hp]; rintro _ ⟨⟩) (needsDir_of_blank hblank)
      (knows_of_blank hblank)
  | _ => cases hstep

theorem Guarded.claiming (hp : t.phase = .claiming attempt identity owner) :
    Guarded ⟨s', W.tasks.set i { t with phase := p' }⟩ := by
  have hbefore : t.phase.needsDir = false := by rw [hp]; rfl
  have hover : ∀ ending, t.phase ≠ .over ending := by rw [hp]; rintro _ ⟨⟩
  have hretry := h.glance hi hlive hbefore hover (needsDir_of_blank (blank_retry attempt))
    (knows_of_blank (blank_retry attempt))
  have hknows := h.knows i t hi
  rw [hp] at hstep hknows
  cases a with
  | done =>
    rw [stepPhase] at hstep
    cases hdir : W.shared.dir with
    | none =>
      rw [hdir] at hstep
      cases hstep
      exact hretry
    | some d =>
      rw [hdir] at hstep
      simp only at hstep
      split_ifs at hstep with hclaim
      · cases hstep
        exact hretry
      · cases hstep
        have hclaimed : DirStep W i t _ := .claimed hdir (by simpa using hclaim)
        refine h.look hi hlive hbefore hover hclaimed ?_ rfl
          ⟨(hclaimed.frame h hi hlive hover).doomed hknows, ?_⟩
        · intro hnone
          cases hdir.symm.trans hnone
        rintro d' hdir' -
        cases hdir'
        rfl
  | _ => cases hstep

/-- `stat` of the lock directory, once it is claimed. -/
theorem Guarded.checking (hp : t.phase = .checking attempt identity owner) :
    Guarded ⟨s', W.tasks.set i { t with phase := p' }⟩ := by
  have hbefore : t.phase.needsDir = false := by rw [hp]; rfl
  have hover : ∀ ending, t.phase ≠ .over ending := by rw [hp]; rintro _ ⟨⟩
  have hknows := h.knows i t hi
  rw [hp] at hstep hknows
  cases a with
  | done =>
    rw [stepPhase] at hstep
    cases hdir : W.shared.dir with
    | none =>
      rw [hdir] at hstep
      cases hstep
      exact h.glance hi hlive hbefore hover rfl trivial
    | some d =>
      rw [hdir] at hstep
      simp only at hstep
      split_ifs at hstep with hid
      · cases hstep
        exact h.glance hi hlive hbefore hover rfl ⟨hknows.1, hknows.2, d, hdir, hid⟩
      · cases hstep
        exact h.glance hi hlive hbefore hover rfl trivial
  | _ => cases hstep

theorem Guarded.verifying (hp : t.phase = .verifying attempt identity owner) :
    Guarded ⟨s', W.tasks.set i { t with phase := p' }⟩ := by
  have hbefore : t.phase.needsDir = false := by rw [hp]; rfl
  have hover : ∀ ending, t.phase ≠ .over ending := by rw [hp]; rintro _ ⟨⟩
  have hknows := h.knows i t hi
  rw [hp] at hstep hknows
  cases a with
  | done =>
    rw [stepPhase] at hstep
    split_ifs at hstep
    · cases hstep
      exact h.glance hi hlive hbefore hover rfl hknows
    · cases hstep
      exact h.glance hi hlive hbefore hover rfl trivial
  | _ => cases hstep

/-- The lock directory is renamed away: it is abandoned, and the claim in it is the call's. -/
theorem Guarded.quarantining (hp : t.phase = .quarantining attempt identity) :
    Guarded ⟨s', W.tasks.set i { t with phase := p' }⟩ := by
  have hknows := h.knows i t hi
  rw [hp] at hstep hknows
  cases a with
  | done =>
    rw [stepPhase] at hstep
    obtain ⟨hdoomed, hclaimed, d, hdir, hid⟩ := hknows
    rw [hdir] at hstep
    cases hstep
    exact h.look hi hlive (by rw [hp]; rfl) (by rw [hp]; rintro _ ⟨⟩)
      (.removed hdir (.inr ⟨hclaimed d hdir hid, hdoomed.2 d hdir hid⟩)) (fun _ ↦ rfl)
      (needsDir_of_blank (blank_retry attempt)) (knows_of_blank (blank_retry attempt))
  | _ => cases hstep

theorem Guarded.unclaiming {next : Option Nat} (hok : InTime W (.resume i a))
    (hp : t.phase = .unclaiming next) : Guarded ⟨s', W.tasks.set i { t with phase := p' }⟩ := by
  rw [hp] at hstep
  cases a with
  | done =>
    have hblank : (next.elim (.over .failed) retry).blank = true := by
      cases next with
      | none => rfl
      | some attempt => exact blank_retry attempt
    cases hstep
    refine h.look hi hlive (by rw [hp]; rfl) (by rw [hp]; rintro _ ⟨⟩) (.unclaimed ?_) ?_
      (needsDir_of_blank hblank) (knows_of_blank hblank)
    · intro d hdir
      exact hok t next d hi hp hdir
    intro hnone
    rw [hnone]
    rfl
  | _ => cases hstep

theorem Guarded.publish (hp : t.phase.unpublished = true) :
    Guarded ⟨s', W.tasks.set i { t with phase := p' }⟩ := by
  have hneeds : t.phase.needsDir = true := by
    cases hphase : t.phase <;> rw [hphase] at hp <;> trivial
  obtain ⟨d, hdir, hmaker, howner⟩ := h.own hi hlive hneeds
  rw [if_pos hp] at howner
  cases hphase : t.phase with
  | writing =>
    rw [hphase] at hstep
    cases a with
    | done =>
      rw [stepPhase, hdir] at hstep
      cases hstep
      exact h.hold hi hlive hneeds (.wrote hdir) (.inl ⟨rfl, _, rfl, hmaker, howner⟩)
    | _ => cases hstep
  | publishing =>
    rw [hphase] at hstep
    cases a with
    | done =>
      rw [stepPhase, hdir] at hstep
      simp only at hstep
      split_ifs at hstep with htemp
      · cases hstep
        exact h.hold hi hlive hneeds (.published hdir hmaker) (.inl ⟨rfl, _, rfl, hmaker, rfl⟩)
      · cases hstep
        exact h.hold hi hlive hneeds .same (.inr ⟨_, rfl⟩)
    | _ => cases hstep
  | _ =>
    rw [hphase] at hp
    cases hp

theorem Guarded.keeping (hneeds : t.phase.needsDir = true)
    (hpublished : t.phase.unpublished = false) :
    Guarded ⟨s', W.tasks.set i { t with phase := p' }⟩ := by
  have hfailed : ∀ released, (beatFailed released).needsDir = true ∧
      (beatFailed released).unpublished = false ∨ ∃ ending, beatFailed released = .over ending := by
    intro released
    cases released with
    | true => exact .inl ⟨rfl, rfl⟩
    | false => exact .inr ⟨_, rfl⟩
  have hstay (hself : p'.needsDir = true ∧ p'.unpublished = false ∨ ∃ ending, p' = .over ending)
      (hsame : s' = W.shared) : Guarded ⟨s', W.tasks.set i { t with phase := p' }⟩ :=
    h.stay hi hlive hneeds hpublished hself hsame
  obtain ⟨d, hdir, hmaker, howner⟩ := h.own hi hlive hneeds
  rw [hpublished] at howner
  cases hphase : t.phase with
  | held =>
    rw [hphase] at hstep
    cases a with
    | beat =>
      cases hstep
      exact hstay (.inl ⟨rfl, rfl⟩) rfl
    | release =>
      cases hstep
      exact hstay (.inl ⟨rfl, rfl⟩) rfl
    | _ => cases hstep
  | beatReading released =>
    rw [hphase] at hstep
    cases a with
    | done =>
      rw [stepPhase] at hstep
      split_ifs at hstep
      · cases hstep
        exact hstay (.inl ⟨rfl, rfl⟩) rfl
      · cases hstep
        exact hstay (hfailed released) rfl
    | release =>
      cases released <;> cases hstep
      exact hstay (.inl ⟨rfl, rfl⟩) rfl
    | _ => cases released <;> cases hstep
  | beatWriting released =>
    rw [hphase] at hstep
    cases a with
    | done =>
      rw [stepPhase, hdir] at hstep
      cases hstep
      exact h.hold hi hlive hneeds (.wrote hdir) (.inl ⟨rfl, _, rfl, hmaker, howner⟩)
    | release =>
      cases released <;> cases hstep
      exact hstay (.inl ⟨rfl, rfl⟩) rfl
    | _ => cases released <;> cases hstep
  | beatRenaming released =>
    rw [hphase] at hstep
    cases a with
    | done =>
      rw [stepPhase, hdir] at hstep
      simp only at hstep
      split_ifs at hstep with htemp hreleased
      · cases hstep
        exact h.hold hi hlive hneeds (.published hdir hmaker) (.inl ⟨rfl, _, rfl, hmaker, rfl⟩)
      · cases hstep
        exact h.hold hi hlive hneeds (.published hdir hmaker) (.inl ⟨rfl, _, rfl, hmaker, rfl⟩)
      · cases hstep
        exact hstay (hfailed released) rfl
    | release =>
      cases released <;> cases hstep
      exact hstay (.inl ⟨rfl, rfl⟩) rfl
    | _ => cases released <;> cases hstep
  | releasing =>
    rw [hphase] at hstep
    cases a with
    | done =>
      rw [stepPhase] at hstep
      split_ifs at hstep
      · cases hstep
        exact hstay (.inl ⟨rfl, rfl⟩) rfl
      · cases hstep
        exact hstay (.inr ⟨_, rfl⟩) rfl
    | _ => cases hstep
  | removing =>
    rw [hphase] at hstep
    cases a with
    | done =>
      cases hstep
      exact h.hold hi hlive hneeds (.removed hdir (.inl hmaker)) (.inr ⟨_, rfl⟩)
    | _ => cases hstep
  | writing | publishing =>
    rw [hphase] at hpublished
    cases hpublished
  | _ =>
    rw [hphase] at hneeds
    cases hneeds

theorem Guarded.moves (hok : InTime W (.resume i a)) :
    Guarded ⟨s', W.tasks.set i { t with phase := p' }⟩ := by
  cases hp : t.phase with
  | making attempt => exact h.making hi hlive hstep hp
  | stating purpose => exact h.stating hi hlive hstep hok hp
  | reading purpose identity aged => exact h.reading hi hlive hstep hp
  | judging purpose identity owner => exact h.judging hi hlive hstep hp
  | recovering attempt owner => exact h.recovering hi hlive hstep hp
  | claiming attempt identity owner => exact h.claiming hi hlive hstep hp
  | checking attempt identity owner => exact h.checking hi hlive hstep hp
  | verifying attempt identity owner => exact h.verifying hi hlive hstep hp
  | quarantining attempt identity => exact h.quarantining hi hlive hstep hp
  | unclaiming next => exact h.unclaiming hi hlive hstep hok hp
  | writing => exact h.publish hi hlive hstep (by rw [hp]; rfl)
  | publishing => exact h.publish hi hlive hstep (by rw [hp]; rfl)
  | «over» ending =>
    rw [hp] at hstep
    cases a <;> cases hstep
  | _ => exact h.keeping hi hlive hstep (by rw [hp]; rfl) (by rw [hp]; rfl)

end Steps

theorem Guarded.call (h : Guarded W) (hdead : W.shared.dead ⊆ s'.dead)
    (hdir : s'.dir = W.shared.dir) (hmade : s'.made = W.shared.made)
    (hneeds : t.phase.needsDir = false) (hknows : ∀ W i, Knows W i t.phase) :
    Guarded ⟨s', W.tasks ++ [t]⟩ := by
  have hold : ∀ {j : Nat}, j < W.tasks.length → (W.tasks ++ [t])[j]? = W.tasks[j]? :=
    fun hj ↦ List.getElem?_append_left hj
  have hlt : ∀ {j : Nat} {t₀}, W.tasks[j]? = some t₀ → j < W.tasks.length :=
    fun hj ↦ (List.getElem?_eq_some_iff.mp hj).1
  have hframe : Frame W ⟨s', W.tasks ++ [t]⟩ W.tasks.length := by
    refine ⟨Nat.le_of_eq hmade.symm, hdead, fun j hj ↦ ?_, fun t₀ ht₀ ↦ ?_, fun d' hdir' ↦ ?_,
      fun d j hd _ _ _ ↦ ⟨d, hdir.trans hd, rfl⟩⟩
    · rcases Nat.lt_or_gt_of_ne hj with hlt | hgt
      · exact hold hlt
      have hlong : (W.tasks ++ [t]).length ≤ j := by
        rw [List.length_append, List.length_singleton]
        exact hgt
      exact (List.getElem?_eq_none hlong).trans (List.getElem?_eq_none (Nat.le_of_lt hgt)).symm
    · exact absurd (hlt ht₀) (Nat.lt_irrefl _)
    · exact .inr ⟨d', hdir.symm.trans hdir', rfl, rfl, fun _ ↦ id, fun _ _ ↦ id⟩
  constructor
  case fresh =>
    intro d hd
    exact hmade ▸ h.fresh d (hdir.symm.trans hd)
  case maker =>
    intro d hd
    obtain ⟨t₀, ht₀, hphase⟩ := h.maker d (hdir.symm.trans hd)
    exact ⟨t₀, (hold (hlt ht₀)).trans ht₀, hphase⟩
  case owner =>
    intro d owner t₀ hd howner ht₀
    obtain ⟨t₁, ht₁, -⟩ := h.maker d (hdir.symm.trans hd)
    exact h.owner d owner t₀ (hdir.symm.trans hd) howner ((hold (hlt ht₁)).symm.trans ht₀)
  case needed =>
    intro j t₀ ht₀ hlive hneeds₀
    rcases World.task_append ht₀ with ht₀ | ⟨-, rfl⟩
    · obtain ⟨d, hd, hself⟩ := h.needed j t₀ ht₀ (fun hmem ↦ hlive (hdead hmem)) hneeds₀
      exact ⟨d, hdir.trans hd, hself⟩
    · cases hneeds.symm.trans hneeds₀
  case knows =>
    intro j t₀ ht₀
    rcases World.task_append ht₀ with ht₀ | ⟨-, rfl⟩
    · exact hframe.knows (Nat.ne_of_lt (hlt ht₀)) (h.knows j t₀ ht₀)
    · exact hknows _ _

theorem Guarded.step (h : Guarded W) {e : Event LockCall LockAnswer} (hok : InTime W e)
    (hstep : runtimeLock.step W e = some W') : Guarded W' := by
  cases e with
  | call c =>
    cases Prog.step_call hstep
    cases c with
    | acquire proc takeover =>
      refine h.call (List.Subset.refl _) rfl rfl ?_ ?_ <;>
        simp only [runtimeLock, startLock] <;> split_ifs <;> first | rfl | exact fun _ _ ↦ trivial
    | inspect proc =>
      refine h.call (List.Subset.refl _) rfl rfl ?_ ?_ <;>
        simp only [runtimeLock, startLock] <;> split_ifs <;> first | rfl | exact fun _ _ ↦ trivial
    | crash proc =>
      exact h.call (List.subset_cons_self _ _) rfl rfl rfl fun _ _ ↦ trivial
  | resume i a =>
    obtain ⟨t, s', t', hi, hresume, rfl⟩ := Prog.step_resume hstep
    simp only [runtimeLock, resumeLock] at hresume
    split_ifs at hresume with hlive
    obtain ⟨⟨s₁, p'⟩, hphase, heq⟩ := Option.map_eq_some_iff.mp hresume
    cases heq
    exact h.moves hi hlive hphase hok

theorem guarded_noLock : Guarded noLock where
  fresh _ hdir := by cases hdir
  maker _ hdir := by cases hdir
  owner _ _ _ hdir := by cases hdir
  needed _ _ ht := by cases ht
  knows _ _ ht := by cases ht

theorem needsDir_of_holds (hp : p.holds = true) : p.needsDir = true ∧ p.unpublished = false := by
  cases p <;> first | exact ⟨rfl, rfl⟩ | cases hp

/-- **At most one process holds the lock**, in a run in which every step is in time. -/
theorem one_holder (h : Reach runtimeLock.step InTime noLock W) : OneHolder W := by
  have hguarded := h.invariant guarded_noLock fun _ _ _ hW hok hstep ↦ hW.step hok hstep
  have hdir : ∀ i t, W.tasks[i]? = some t → t.proc ∉ W.shared.dead → t.phase.holds = true →
      ∃ d, W.shared.dir = some d ∧ d.maker = i ∧ d.owner = some ⟨i, t.proc⟩ := by
    intro i t hi hlive hholds
    obtain ⟨hneeds, hpublished⟩ := needsDir_of_holds hholds
    have hown := hguarded.needed i t hi hlive hneeds
    rwa [hpublished] at hown
  constructor
  case one =>
    rintro i j ⟨t, hi, hlive, hholds⟩ ⟨t', hj, hlive', hholds'⟩
    obtain ⟨d, hd, hmaker, -⟩ := hdir i t hi hlive hholds
    obtain ⟨d', hd', hmaker', -⟩ := hdir j t' hj hlive' hholds'
    cases hd.symm.trans hd'
    exact hmaker.symm.trans hmaker'
  case stands =>
    rintro i ⟨t, hi, hlive, hholds⟩
    obtain ⟨d, hd, hmaker, howner⟩ := hdir i t hi hlive hholds
    exact ⟨d, t, hi, hd, hmaker, howner⟩

/-! ## Runs to evaluate -/

def sampleProc (pid : Nat) : Proc := ⟨some "linux:1", pid, some 0⟩

def acquires (pid : Nat) : Event LockCall LockAnswer := .call (.acquire (sampleProc pid) false)

def does (i n : Nat) : List (Event LockCall LockAnswer) := List.replicate n (.resume i .done)

def takes (i : Nat) : List (Event LockCall LockAnswer) := does i 3

def finds (i : Nat) (owned : Bool) : List (Event LockCall LockAnswer) :=
  does i 1 ++ [.resume i (.stat true)] ++ does i 1 ++
    if owned then [.resume i (.judged false)] else []

def followed : List (Event LockCall LockAnswer) :=
  [acquires 1] ++ takes 0 ++ [.call (.crash (sampleProc 1)), acquires 2] ++ finds 2 true ++
    does 2 4 ++ takes 2

/-- A process makes the directory, and another takes its place before it names itself. -/
def overtaken : List (Event LockCall LockAnswer) :=
  [acquires 1, acquires 2] ++ does 0 1 ++ finds 1 false ++ does 1 4 ++ takes 1 ++ does 0 2

/-- A call gives up a claim so late that it removes that of another. -/
def crossed : List (Event LockCall LockAnswer) :=
  [acquires 1] ++ takes 0 ++ [.call (.crash (sampleProc 1)), acquires 2, acquires 3] ++
    finds 2 true ++ finds 3 true ++ does 3 4 ++ takes 3 ++ does 2 2 ++
    [.resume 3 .release] ++ does 3 2 ++
    [acquires 4] ++ takes 4 ++ [.call (.crash (sampleProc 4)), acquires 5, acquires 6] ++
    finds 6 true ++ does 6 3 ++ does 2 1 ++ finds 7 true ++ does 7 3 ++
    does 6 1 ++ takes 6 ++ does 7 1 ++ takes 7

theorem followed_inTime (n : Nat) (e : Event LockCall LockAnswer) (he : followed[n]? = some e) :
    InTime (after runtimeLock.step noLock (followed.take n)) e := by
  match n with
  | 0 | 4 | 5 | 9 =>
    cases he
    trivial
  | 7 =>
    cases he
    rintro d t hdir ht hlive
    cases hdir
    cases ht
    exact absurd hlive (by decide)
  | 1 | 2 | 3 | 6 | 8 | 10 | 11 | 12 | 13 | 14 | 15 | 16 =>
    cases he
    rintro t attempt d ht hp -
    cases ht
    cases hp
  | n + 17 => cases he

/-- An owner has crashed, and another holds the lock. -/
theorem one_holder_followed : OneHolder (after runtimeLock.step noLock followed) ∧
    HoldsLock (after runtimeLock.step noLock followed) 2 :=
  ⟨one_holder (Reach.of_after followed (by decide) followed_inTime), _, rfl, by decide, rfl⟩

/-- A process that was overtaken holds the lock beside the one that has overtaken it; and so does
one whose claim another has removed. -/
theorem two_holders :
    (∃ W, Reach runtimeLock.step anyStep noLock W ∧ HoldsLock W 0 ∧ HoldsLock W 1 ∧ ¬ OneHolder W) ∧
    ∃ W, Reach runtimeLock.step anyStep noLock W ∧ HoldsLock W 6 ∧ HoldsLock W 7 ∧
      ¬ OneHolder W := by
  have hovertaken : HoldsLock (after runtimeLock.step noLock overtaken) 0 ∧
      HoldsLock (after runtimeLock.step noLock overtaken) 1 :=
    ⟨⟨_, rfl, by decide, rfl⟩, _, rfl, by decide, rfl⟩
  have hcrossed : HoldsLock (after runtimeLock.step noLock crossed) 6 ∧
      HoldsLock (after runtimeLock.step noLock crossed) 7 :=
    ⟨⟨_, rfl, by decide, rfl⟩, _, rfl, by decide, rfl⟩
  refine ⟨⟨_, Reach.of_after overtaken (by decide) fun _ _ _ ↦ trivial, hovertaken.1, hovertaken.2,
    fun h ↦ ?_⟩, _, Reach.of_after crossed (by decide) fun _ _ _ ↦ trivial, hcrossed.1,
    hcrossed.2, fun h ↦ ?_⟩
  · exact absurd (h.one 0 1 hovertaken.1 hovertaken.2) (by decide)
  · exact absurd (h.one 6 7 hcrossed.1 hcrossed.2) (by decide)

end OpenAlice.Guardian
