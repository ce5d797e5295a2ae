import OpenAlice.Data.JsonText
import OpenAlice.Run.Tickets
import OpenAlice.Workspaces.SessionRegistry

/-!
# The roster is durable

A flush writes all records under a temporary name that all flushes share, and nothing keeps
two of them apart.  The older one may be renamed last, or find its temporary file emptied or
gone.  A load that ends after another puts what it has read in the place of what has been
changed since; an update may give a record the resume id of another, and the file that is
written then is refused; and a call whose flush fails has changed what is in memory.
`orderlyStep` is the condition that none of this happens.

Flushes are numbered.  While they are renamed in their order, those up to some number have
landed and the next one alone has the temporary file; the newest one writes what is in
memory, and once it has landed, the file holds it.
-/

namespace OpenAlice.Workspaces

open OpenAlice.Data OpenAlice.Run

variable (codec : RosterCodec)

/-! ## The condition -/

/-- The answer `a` to call `i`, which stands at `k`, is one that does no harm. -/
structure Orderly (W : World Registry SessionTask) (a : Files.Answer) (k : SessionTask) : Prop where
  /-- A load that ends when the roster is loaded has read what is in memory. -/
  load : ∀ call i records, k = .reading call i → W.shared.loaded = true →
    loadText codec (W.shared.files.text i) = .ok records → W.shared.records = some records
  own : ∀ id patch records, k = .loaded (.update id patch) → W.shared.records = some records →
    patch.Own records id
  succeeds : k.flush.isSome = true → a ≠ .failed
  /-- A flush opens the temporary file when all that began before it have been renamed. -/
  turn : ∀ call result text n, k = .replacing call result text .opening n →
    ∀ (j : Nat) (k' : SessionTask) (m : Nat), W.tasks[j]? = some k' → k'.flush = some m → n ≤ m

def orderlyStep (W : World Registry SessionTask) : Event SessionCall Files.Answer → Prop
  | .call _ => True
  | .resume i a => ∀ k, W.tasks[i]? = some k → Orderly codec W a k

/-! ## Flushes -/

variable {codec} {landed n : Nat} {current current' : List SessionRecord}
variable {W W' : World Registry SessionTask} {i : Nat} {k k' : SessionTask}
variable {call : SessionCall} {result : List SessionRecord} {text : FileText}
variable {objects : List Nat} {r r' : Files.Replacing}

/-- What a flush writes is `current`. -/
def SessionTask.Writes (codec : RosterCodec) (s : Registry) (current : List SessionRecord) :
    SessionTask → Prop
  | .making _ _ objects _ => s.contents objects = current
  | .replacing _ _ text _ _ => text = codec.stringify (fileShape current)
  | _ => True

def flushOf (tasks : List SessionTask) (j : Nat) : Option Nat :=
  (tasks[j]?).bind SessionTask.flush

variable {tasks tasks' : List SessionTask}

theorem flushOf_of_task (h : tasks[i]? = some k) : flushOf tasks i = k.flush := by
  rw [flushOf, h]
  rfl

theorem flushOf_moved (hm : World.Moved tasks tasks' i k') :
    flushOf tasks' = Function.update (flushOf tasks) i k'.flush :=
  hm.holds SessionTask.flush

theorem flushOf_same (hm : World.Moved tasks tasks' i k') (h : flushOf tasks i = k'.flush) :
    flushOf tasks' = flushOf tasks := by
  rw [flushOf_moved hm, ← h, Function.update_eq_self]

variable (codec) in
/-- The flushes up to `landed` have been renamed, and the others are under way; the newest one
writes `current`. -/
structure Landing (landed : Nat) (current : List SessionRecord)
    (W : World Registry SessionTask) : Prop where
  tickets : Tickets landed W.shared.flushes (flushOf W.tasks)
  fits : ∀ (j : Nat) call result text r n, W.tasks[j]? = some (.replacing call result text r n) →
    W.shared.files.Fits .tmp text r ∧ (r ≠ .opening → n = landed + 1)
  newest : ∀ (j : Nat) k, W.tasks[j]? = some k → k.flush = some W.shared.flushes →
    k.Writes codec W.shared current
  disk : landed = W.shared.flushes → loadFile codec W.shared.files = .ok current

namespace Landing

theorem quiet (h : Landing codec landed current W) (hm : World.Moved W.tasks W'.tasks i k')
    (hold : flushOf W.tasks i = none) (hk' : k'.flush = none)
    (hfiles : W'.shared.files = W.shared.files) (hflushes : W'.shared.flushes = W.shared.flushes)
    (hcontents : ∀ (j : Nat) call result objects n,
      W.tasks[j]? = some (.making call result objects n) →
      W'.shared.contents objects = W.shared.contents objects) :
    Landing codec landed current W' where
  tickets := by
    rw [hflushes, flushOf_same hm (hold.trans hk'.symm)]
    exact h.tickets
  fits j call result text r n hj := by
    rw [hfiles]
    rcases hm.cases hj with ⟨_, rfl⟩ | ⟨_, hj⟩
    · cases hk'
    · exact h.fits j call result text r n hj
  newest j k hj hn := by
    rw [hflushes] at hn
    rcases hm.cases hj with ⟨_, rfl⟩ | ⟨_, hj⟩
    · rw [hk'] at hn
      cases hn
    have hw := h.newest j k hj hn
    cases k with
    | making call result objects m => exact (hcontents j call result objects m hj).trans hw
    | replacing => exact hw
    | _ => trivial
  disk heq := by
    rw [hfiles]
    exact h.disk (heq.trans hflushes)

theorem start (h : Landing codec landed current W)
    (hm : World.Moved W.tasks W'.tasks i (.making call result objects (W.shared.flushes + 1)))
    (hold : flushOf W.tasks i = none) (hfiles : W'.shared.files = W.shared.files)
    (hflushes : W'.shared.flushes = W.shared.flushes + 1)
    (hcontents : W'.shared.contents objects = current') :
    Landing codec landed current' W' where
  tickets := by
    rw [hflushes, flushOf_moved hm]
    exact h.tickets.issue hold
  fits j call result text r n hj := by
    rw [hfiles]
    rcases hm.cases hj with ⟨_, hk⟩ | ⟨_, hj⟩
    · cases hk
    · exact h.fits j call result text r n hj
  newest j k hj hn := by
    rw [hflushes] at hn
    rcases hm.cases hj with ⟨_, rfl⟩ | ⟨_, hj⟩
    · exact hcontents
    · have hrange := h.tickets.range j _ ((flushOf_of_task hj).trans hn)
      exact absurd hrange.2 (Nat.not_succ_le_self _)
  disk heq := by
    have hle := h.tickets.le
    omega

theorem make (h : Landing codec landed current W)
    (hi : W.tasks[i]? = some (.making call result objects n)) :
    Landing codec landed current ⟨W.shared, W.tasks.set i (.replacing call result
      (codec.stringify (fileShape (W.shared.contents objects))) .opening n)⟩ := by
  have hm := World.Moved.set hi (.replacing call result
      (codec.stringify (fileShape (W.shared.contents objects))) .opening n)
  refine ⟨?_, ?_, ?_, h.disk⟩
  · rw [flushOf_same hm ((flushOf_of_task hi).trans rfl)]
    exact h.tickets
  · intro j call' result' text r m hj
    rcases hm.cases hj with ⟨_, heq⟩ | ⟨_, hj⟩
    · cases heq
      exact ⟨trivial, fun hne ↦ absurd rfl hne⟩
    · exact h.fits j call' result' text r m hj
  · intro j k hj hn
    rcases hm.cases hj with ⟨_, rfl⟩ | ⟨_, hj⟩
    · have hw := h.newest i _ hi hn
      exact congrArg (codec.stringify ∘ fileShape) hw
    · exact h.newest j k hj hn

theorem eq_next (h : Landing codec landed current W)
    (hi : W.tasks[i]? = some (.replacing call result text r n))
    (hturn : r = .opening → ∀ (j : Nat) (k : SessionTask) (m : Nat), W.tasks[j]? = some k →
      k.flush = some m → n ≤ m) : n = landed + 1 := by
  by_cases hr : r = .opening
  · refine h.tickets.eq_next ((flushOf_of_task hi).trans rfl) ?_
    intro j m hj
    obtain ⟨k, hk, hm⟩ := Option.bind_eq_some_iff.mp hj
    exact hturn hr j k m hk hm
  · exact (h.fits i call result text r n hi).2 hr

theorem others (h : Landing codec landed current W)
    (hi : W.tasks[i]? = some (.replacing call result text r (landed + 1))) {j : Nat}
    {call' : SessionCall} {result' : List SessionRecord} {text' : FileText} (hne : j ≠ i)
    (hj : W.tasks[j]? = some (.replacing call' result' text' r' n)) : r' = .opening := by
  by_contra hr
  have hn := (h.fits j call' result' text' r' n hj).2 hr
  subst hn
  exact hne (h.tickets.distinct j i _ (flushOf_of_task hj) (flushOf_of_task hi))

theorem go (h : Landing codec landed current W) {files : Files SessionPath UInt8}
    (hi : W.tasks[i]? = some (.replacing call result text r (landed + 1)))
    (hfits : files.Fits .tmp text r') (hread : files.read .file = W.shared.files.read .file) :
    Landing codec landed current ⟨{ W.shared with files },
      W.tasks.set i (.replacing call result text r' (landed + 1))⟩ := by
  have hm := World.Moved.set hi (.replacing call result text r' (landed + 1))
  refine ⟨?_, ?_, ?_, ?_⟩
  · rw [flushOf_same hm ((flushOf_of_task hi).trans rfl)]
    exact h.tickets
  · intro j call' result' text' r₁ m hj
    rcases hm.cases hj with ⟨_, heq⟩ | ⟨hne, hj⟩
    · cases heq
      exact ⟨hfits, fun _ ↦ rfl⟩
    · rw [h.others hi hne hj]
      exact ⟨trivial, fun hr ↦ absurd rfl hr⟩
  · intro j k hj hn
    rcases hm.cases hj with ⟨_, rfl⟩ | ⟨_, hj⟩
    · exact h.newest i _ hi hn
    · exact h.newest j k hj hn
  · intro heq
    have hdisk := h.disk heq
    simp only [loadFile] at hdisk ⊢
    rwa [hread]

theorem land (h : Landing codec landed current W) {files : Files SessionPath UInt8}
    (hi : W.tasks[i]? = some (.replacing call result text r (landed + 1)))
    (hread : files.read .file = some text) (hunique : Unique current) :
    Landing codec (landed + 1) current ⟨{ W.shared with files },
      W.tasks.set i (.resolved call result)⟩ := by
  have hm := World.Moved.set hi (.resolved call result)
  refine ⟨?_, ?_, ?_, ?_⟩
  · rw [flushOf_moved hm]
    exact h.tickets.serve (flushOf_of_task hi)
  · intro j call' result' text' r₁ m hj
    rcases hm.cases hj with ⟨_, heq⟩ | ⟨hne, hj⟩
    · cases heq
    · rw [h.others hi hne hj]
      exact ⟨trivial, fun hr ↦ absurd rfl hr⟩
  · intro j k hj hn
    rcases hm.cases hj with ⟨_, rfl⟩ | ⟨_, hj⟩
    · cases hn
    · exact h.newest j k hj hn
  · intro heq
    have htext : text = codec.stringify (fileShape current) := h.newest i _ hi (congrArg some heq)
    simp only [loadFile, hread]
    rw [loadText, htext, codec.parse_stringify]
    exact validateFile_fileShape hunique

end Landing

/-! ## Calls that have run -/

def ranOf (tasks : List SessionTask) (j : Nat) : Option SessionCall :=
  (tasks[j]?).bind SessionTask.ran

theorem ranOf_of_task (h : tasks[i]? = some k) : ranOf tasks i = k.ran := by
  rw [ranOf, h]
  rfl

structure Logged (log : List (Nat × SessionCall)) (tasks : List SessionTask) : Prop where
  mem : ∀ j c, (j, c) ∈ log ↔ ranOf tasks j = some c
  once : (log.map Prod.fst).Nodup

namespace Logged

variable {log : List (Nat × SessionCall)}

theorem same (h : Logged log tasks) (hm : World.Moved tasks tasks' i k')
    (hran : ranOf tasks i = k'.ran) : Logged log tasks' where
  mem j c := by
    have hholds : ranOf tasks' = Function.update (ranOf tasks) i k'.ran := hm.holds SessionTask.ran
    rw [hholds, ← hran, Function.update_eq_self]
    exact h.mem j c
  once := h.once

theorem run (h : Logged log tasks) (hm : World.Moved tasks tasks' i k')
    (hold : ranOf tasks i = none) (hk' : k'.ran = some call) :
    Logged (log ++ [(i, call)]) tasks' where
  mem j c := by
    have hholds : ranOf tasks' = Function.update (ranOf tasks) i k'.ran := hm.holds SessionTask.ran
    have hno : ∀ c, (i, c) ∉ log := by
      intro c hmem
      rw [(h.mem i c).mp hmem] at hold
      cases hold
    rw [hholds, List.mem_append, List.mem_singleton]
    by_cases hji : j = i
    · subst hji
      rw [Function.update_self, hk']
      constructor
      · rintro (hmem | heq)
        · exact absurd hmem (hno c)
        · cases heq
          rfl
      rintro heq
      cases heq
      exact .inr rfl
    · rw [Function.update_of_ne hji, ← h.mem j c]
      constructor
      · rintro (hmem | heq)
        · exact hmem
        · cases heq
          exact absurd rfl hji
      · exact .inl
  once := by
    rw [List.map_append, List.map_singleton, List.nodup_append]
    refine ⟨h.once, List.nodup_singleton _, ?_⟩
    intro x hx y hy
    rw [List.mem_singleton.mp hy]
    rintro rfl
    obtain ⟨⟨j, c⟩, hmem, hj⟩ := List.mem_map.mp hx
    cases hj
    rw [(h.mem _ c).mp hmem] at hold
    cases hold

end Logged

/-! ## The invariant -/

def Registry.recordsFrom (s : Registry) (initial : List SessionRecord) : List SessionRecord :=
  s.records.getD initial

def SessionTask.Early (files : Files SessionPath UInt8) : SessionTask → Prop
  | .opening _ | .rejected _ => True
  | .reading _ i => files.entry .file = some i
  | _ => False

variable {files : Files SessionPath UInt8}

theorem SessionTask.Early.flush (h : k.Early files) : k.flush = none := by
  cases k with
  | making | replacing => cases h
  | _ => rfl

variable (codec) in
/-- What holds as long as every step is orderly. -/
structure Durable (initial : List SessionRecord) (W : World Registry SessionTask) : Prop where
  roster : W.shared.roster.isSome = W.shared.loaded
  early : W.shared.loaded = false → ∀ (j : Nat) k, W.tasks[j]? = some k → k.Early W.shared.files
  known : ∀ objects, W.shared.roster = some objects → ∀ o ∈ objects, o < W.shared.nextObject
  held : ∀ (j : Nat) call result objects n,
    W.tasks[j]? = some (.making call result objects n) → ∀ o ∈ objects, o < W.shared.nextObject
  effects : W.shared.recordsFrom initial =
    (W.shared.log.map Prod.snd).foldl SessionCall.effect initial
  unique : Unique (W.shared.recordsFrom initial)
  logged : Logged W.shared.log W.tasks
  landing : ∃ landed, Landing codec landed (W.shared.recordsFrom initial) W

variable {initial : List SessionRecord}

namespace Durable

theorem disk (h : Durable codec initial W) (hnone : ∀ j, flushOf W.tasks j = none) :
    loadFile codec W.shared.files = .ok (W.shared.recordsFrom initial) := by
  obtain ⟨landed, hl⟩ := h.landing
  exact hl.disk (hl.tickets.all_served hnone)

theorem no_flush (h : Durable codec initial W) (hloaded : W.shared.loaded = false) (j : Nat) :
    flushOf W.tasks j = none := by
  cases hj : W.tasks[j]? with
  | none => rw [flushOf, hj]; rfl
  | some k => exact (flushOf_of_task hj).trans (h.early hloaded j k hj).flush

theorem quiet (h : Durable codec initial W) (hm : World.Moved W.tasks tasks' i k')
    (hflush : flushOf W.tasks i = none) (hflush' : k'.flush = none)
    (hran : ranOf W.tasks i = k'.ran)
    (hearly : W.shared.loaded = false → k'.Early W.shared.files) :
    Durable codec initial ⟨W.shared, tasks'⟩ where
  roster := h.roster
  early hloaded j k hj := by
    rcases hm.cases hj with ⟨_, rfl⟩ | ⟨_, hj⟩
    · exact hearly hloaded
    · exact h.early hloaded j k hj
  known := h.known
  held j call result objects n hj := by
    rcases hm.cases hj with ⟨_, rfl⟩ | ⟨_, hj⟩
    · cases hflush'
    · exact h.held j call result objects n hj
  effects := h.effects
  unique := h.unique
  logged := h.logged.same hm hran
  landing := by
    obtain ⟨landed, hl⟩ := h.landing
    exact ⟨landed, hl.quiet hm hflush hflush' rfl rfl fun _ _ _ _ _ _ ↦ rfl⟩

end Durable

/-! ## Objects -/

section Objects

variable {s : Registry} {records : List SessionRecord}

theorem mem_find {id : String} {o : Nat}
    (h : objects.find? (fun o ↦ (s.objects o).id = id) = some o) :
    o ∈ objects ∧ (s.objects o).id = id :=
  ⟨List.mem_of_find?_eq_some h, by simpa using List.find?_some h⟩

theorem eq_of_id (h : Unique (s.contents objects)) {o o' : Nat} (ho : o ∈ objects)
    (ho' : o' ∈ objects) (heq : (s.objects o).id = (s.objects o').id) : o = o' := by
  have hids := h.ids
  rw [Registry.contents, List.map_map] at hids
  exact List.inj_on_of_nodup_map hids ho ho' heq

theorem contents_update {id : String} {patch : SessionPatch} {o : Nat}
    (h : Unique (s.contents objects)) (ho : o ∈ objects) (hid : (s.objects o).id = id) :
    objects.map (Function.update s.objects o (patch.assign (s.objects o))) =
      (SessionCall.update id patch).effect (s.contents objects) := by
  rw [SessionCall.effect, Registry.contents, List.map_map]
  refine List.map_congr_left ?_
  intro o' ho'
  rw [Function.comp_apply]
  by_cases heq : o' = o
  · rw [heq, Function.update_self, if_pos hid]
  rw [Function.update_of_ne heq, if_neg]
  intro hid'
  exact heq (eq_of_id h ho' ho (hid'.trans hid.symm))

theorem contents_remove {id : String} {o : Nat} (h : Unique (s.contents objects))
    (ho : o ∈ objects) (hid : (s.objects o).id = id) :
    s.contents (objects.filter (· ≠ o)) = (SessionCall.remove id).effect (s.contents objects) := by
  rw [SessionCall.effect, Registry.contents, Registry.contents, List.filter_map]
  refine congrArg (List.map s.objects) (List.filter_congr ?_)
  intro o' ho'
  have hiff : o' ≠ o ↔ (s.objects o').id ≠ id := by
    constructor
    · intro hne hid'
      exact hne (eq_of_id h ho' ho (hid'.trans hid.symm))
    · rintro hne rfl
      exact hne hid
  simp only [Function.comp_apply, decide_eq_decide]
  exact hiff

theorem not_found {id : String} (h : objects.find? (fun o ↦ (s.objects o).id = id) = none)
    {r : SessionRecord} (hr : r ∈ s.contents objects) : r.id ≠ id := by
  obtain ⟨o, ho, rfl⟩ := List.mem_map.mp hr
  simpa using List.find?_eq_none.mp h o ho

end Objects

namespace Durable

theorem records_of_roster {s : Registry} (h : s.roster = some objects) :
    s.recordsFrom initial = s.contents objects := by
  rw [Registry.recordsFrom, Registry.records, h]
  rfl

theorem records_fill {s : Registry} {records : List SessionRecord} :
    (s.fill records).recordsFrom initial = records :=
  map_filled

theorem load (h : Durable codec initial W) {i₀ : Nat} (hi : W.tasks[i]? = some (.reading call i₀)) :
    Durable codec initial
      ⟨W.shared.fill (W.shared.recordsFrom initial), W.tasks.set i (.loaded call)⟩ := by
  have hm := World.Moved.set hi (.loaded call)
  obtain ⟨landed, hl⟩ := h.landing
  refine ⟨rfl, ?_, ?_, ?_, ?_, ?_, ?_, landed, ?_⟩
  · intro hloaded
    cases hloaded
  · intro objects hobjects o ho
    cases hobjects
    exact lt_of_mem_newObjects ho
  · intro j call' result objects n hj o ho
    rcases hm.cases hj with ⟨_, hk⟩ | ⟨_, hj⟩
    · cases hk
    · exact Nat.lt_of_lt_of_le (h.held j call' result objects n hj o ho) (Nat.le_add_right _ _)
  · rw [records_fill]
    exact h.effects
  · rw [records_fill]
    exact h.unique
  · exact h.logged.same hm ((ranOf_of_task hi).trans rfl)
  · rw [records_fill]
    refine hl.quiet hm ((flushOf_of_task hi).trans rfl) rfl rfl rfl ?_
    intro j call' result objects n hj
    exact map_filled_old (h.held j call' result objects n hj)

theorem absent (h : Durable codec initial W) (hloaded : W.shared.loaded = false)
    (hfile : W.shared.files.entry .file = none) :
    Durable codec initial
      ⟨{ W.shared with roster := some [], loaded := true }, W.tasks ++ [.loaded call]⟩ := by
  have hm := World.Moved.append W.tasks (.loaded call)
  have hnew : flushOf W.tasks W.tasks.length = none := by
    rw [flushOf, List.getElem?_eq_none (Nat.le_refl _)]
    rfl
  have hran : ranOf W.tasks W.tasks.length = none := by
    rw [ranOf, List.getElem?_eq_none (Nat.le_refl _)]
    rfl
  have hempty : W.shared.recordsFrom initial = [] := by
    have hdisk := h.disk (h.no_flush hloaded)
    rw [loadFile, Files.read, hfile] at hdisk
    exact (Except.ok.inj hdisk).symm
  obtain ⟨landed, hl⟩ := h.landing
  have heffects := h.effects
  have hunique := h.unique
  rw [hempty] at hl heffects hunique
  refine ⟨rfl, ?_, ?_, ?_, heffects, hunique, h.logged.same hm hran, landed, ?_⟩
  · intro hloaded
    cases hloaded
  · intro objects hobjects o ho
    cases hobjects
    cases ho
  · intro j call' result objects n hj
    rcases hm.cases hj with ⟨_, hk⟩ | ⟨_, hj⟩
    · cases hk
    · exact h.held j call' result objects n hj
  · exact hl.quiet hm hnew rfl rfl rfl fun _ _ _ _ _ _ ↦ rfl

theorem flush (h : Durable codec initial W) (hi : W.tasks[i]? = some (.loaded call))
    {s : Registry} (hfiles : s.files = W.shared.files) (hflushes : s.flushes = W.shared.flushes)
    (hlog : s.log = W.shared.log ++ [(i, call)]) (hroster : s.roster = some objects)
    (hloaded : s.loaded = true) (hknown : ∀ o ∈ objects, o < s.nextObject)
    (hnext : W.shared.nextObject ≤ s.nextObject)
    (heffect : s.contents objects = call.effect (W.shared.recordsFrom initial))
    (hunique : Unique (s.contents objects)) :
    Durable codec initial ⟨(s.flush call result).1, W.tasks.set i (s.flush call result).2⟩ := by
  have hflush : s.flush call result = ({ s with flushes := W.shared.flushes + 1 },
      .making call result objects (W.shared.flushes + 1)) := by
    rw [Registry.flush, hroster, hflushes]
  rw [hflush]
  have hm := World.Moved.set hi (.making call result objects (W.shared.flushes + 1))
  have hnow : ({ s with flushes := W.shared.flushes + 1 } : Registry).recordsFrom initial =
      s.contents objects := records_of_roster hroster
  obtain ⟨landed, hl⟩ := h.landing
  refine ⟨?_, ?_, ?_, ?_, ?_, ?_, ?_, landed, ?_⟩
  · show s.roster.isSome = s.loaded
    rw [hroster, hloaded]
    rfl
  · intro hnot
    exact absurd (hloaded.symm.trans hnot) (by simp)
  · intro objects' hobjects
    cases hroster.symm.trans hobjects
    exact hknown
  · intro j call' result' objects' n hj o ho
    rcases hm.cases hj with ⟨_, hk⟩ | ⟨_, hj⟩
    · cases hk
      exact hknown o ho
    · exact Nat.lt_of_lt_of_le (h.held j call' result' objects' n hj o ho) hnext
  · rw [hnow, heffect, h.effects]
    show _ = (s.log.map Prod.snd).foldl SessionCall.effect initial
    rw [hlog, List.map_append, List.foldl_append]
    rfl
  · rw [hnow]
    exact hunique
  · show Logged s.log _
    rw [hlog]
    exact h.logged.run hm ((ranOf_of_task hi).trans rfl) rfl
  · exact hl.start hm ((flushOf_of_task hi).trans rfl) hfiles rfl hnow.symm

theorem idle (h : Durable codec initial W) (hi : W.tasks[i]? = some (.loaded call))
    (heffect : call.effect (W.shared.recordsFrom initial) = W.shared.recordsFrom initial) :
    Durable codec initial ⟨W.shared.note i call, W.tasks.set i (.resolved call result)⟩ := by
  have hm := World.Moved.set hi (.resolved call result)
  obtain ⟨landed, hl⟩ := h.landing
  refine ⟨h.roster, ?_, h.known, ?_, ?_, h.unique, ?_, landed, ?_⟩
  · intro hloaded
    cases h.early hloaded i _ hi
  · intro j call' result' objects n hj
    rcases hm.cases hj with ⟨_, hk⟩ | ⟨_, hj⟩
    · cases hk
    · exact h.held j call' result' objects n hj
  · show W.shared.recordsFrom initial = ((W.shared.log ++ [(i, call)]).map Prod.snd).foldl _ _
    rw [List.map_append, List.foldl_append, ← h.effects]
    exact heffect.symm
  · exact h.logged.run hm ((ranOf_of_task hi).trans rfl) rfl
  · exact hl.quiet hm ((flushOf_of_task hi).trans rfl) rfl rfl rfl fun _ _ _ _ _ _ ↦ rfl

theorem rejects (h : Durable codec initial W) (hi : W.tasks[i]? = some k) (hflush : k.flush = none)
    (hran : k.ran = none) (error : SessionError) :
    Durable codec initial ⟨W.shared, W.tasks.set i (.rejected error)⟩ := by
  refine h.quiet (World.Moved.set hi _) ((flushOf_of_task hi).trans hflush) rfl
    ((ranOf_of_task hi).trans hran) ?_
  intro _
  trivial

theorem body (h : Durable codec initial W) (hi : W.tasks[i]? = some (.loaded call))
    (hown : ∀ id patch records, call = .update id patch → W.shared.records = some records →
      patch.Own records id) :
    Durable codec initial
      ⟨(sessionBody W.shared i call).1, W.tasks.set i (sessionBody W.shared i call).2⟩ := by
  have hloaded : W.shared.loaded = true := by
    by_contra hnot
    cases h.early (by simpa using hnot) i _ hi
  obtain ⟨objects, hroster⟩ := Option.isSome_iff_exists.mp (h.roster.trans hloaded)
  have hnow : W.shared.recordsFrom initial = W.shared.contents objects := records_of_roster hroster
  have hknown := h.known objects hroster
  have hunique : Unique (W.shared.contents objects) := hnow ▸ h.unique
  have rejects := h.rejects hi rfl rfl
  cases call with
  | ensureLoaded =>
    simp only [sessionBody, hroster]
    exact h.idle hi rfl
  | create record =>
    simp only [sessionBody, hroster]
    split_ifs with hid hresume
    · exact rejects _
    · exact rejects _
    · have hids : ∀ r ∈ W.shared.contents objects, r.id ≠ record.id := by simpa using hid
      have hresumes : ∀ r ∈ W.shared.contents objects, r.resumeId ≠ record.resumeId := by
        simpa using hresume
      have hcontents : ((W.shared.note i (.create record)).allocate [record]).1.contents
          (objects ++ ((W.shared.note i (.create record)).allocate [record]).2) =
          W.shared.contents objects ++ [record] := by
        rw [Registry.contents, List.map_append]
        exact congrArg₂ _ (map_filled_old hknown) map_filled
      refine h.flush hi rfl rfl rfl rfl hloaded ?_ (Nat.le_add_right _ _) ?_ ?_
      · intro o ho
        rcases List.mem_append.mp ho with ho | ho
        · exact Nat.lt_of_lt_of_le (hknown o ho) (Nat.le_add_right _ _)
        · exact lt_of_mem_newObjects ho
      · rw [hnow]
        exact hcontents
      · exact hcontents ▸ hunique.append hids hresumes
  | update id patch =>
    simp only [sessionBody, hroster]
    split
    · rename_i hfind
      refine h.idle hi ?_
      rw [hnow]
      refine (List.map_congr_left ?_).trans (List.map_id _)
      intro r hr
      exact if_neg (not_found hfind hr)
    · rename_i o hfind
      obtain ⟨ho, hid⟩ := mem_find hfind
      have hcontents : objects.map (Function.update W.shared.objects o
          (patch.assign (W.shared.objects o))) =
          (SessionCall.update id patch).effect (W.shared.contents objects) :=
        contents_update hunique ho hid
      have hrecords : W.shared.records = some (W.shared.contents objects) := by
        rw [Registry.records, hroster]
        rfl
      refine h.flush hi rfl rfl rfl hroster hloaded hknown (Nat.le_refl _) ?_ ?_
      · rw [hnow]
        exact hcontents
      show Unique (objects.map _)
      rw [hcontents]
      exact hunique.update (hown id patch _ rfl hrecords)
  | remove id =>
    simp only [sessionBody, hroster]
    split
    · rename_i hfind
      refine h.idle hi ?_
      rw [hnow]
      refine List.filter_eq_self.mpr ?_
      intro r hr
      exact decide_eq_true (not_found hfind hr)
    · rename_i o hfind
      obtain ⟨ho, hid⟩ := mem_find hfind
      have hcontents := contents_remove hunique ho hid
      refine h.flush hi rfl rfl rfl rfl hloaded ?_ (Nat.le_refl _) ?_ ?_
      · intro o' ho'
        exact hknown o' (List.mem_of_mem_filter ho')
      · rw [hnow]
        exact hcontents
      · exact hcontents ▸ hunique.filter _
  | removeAllFor =>
    simp only [sessionBody, hroster]
    split_ifs with hempty
    · refine h.idle hi ?_
      rw [hnow, hempty]
      rfl
    refine h.flush hi rfl rfl rfl rfl hloaded ?_ (Nat.le_refl _) rfl Unique.nil
    intro o ho
    cases ho

theorem make (h : Durable codec initial W)
    (hi : W.tasks[i]? = some (.making call result objects n)) :
    Durable codec initial ⟨W.shared, W.tasks.set i (.replacing call result
      (codec.stringify (fileShape (W.shared.contents objects))) .opening n)⟩ := by
  have hm := World.Moved.set hi (.replacing call result
      (codec.stringify (fileShape (W.shared.contents objects))) .opening n)
  obtain ⟨landed, hl⟩ := h.landing
  refine ⟨h.roster, ?_, h.known, ?_, h.effects, h.unique, ?_, landed, hl.make hi⟩
  · intro hloaded
    cases h.early hloaded i _ hi
  · intro j call' result' objects' n' hj
    rcases hm.cases hj with ⟨_, hk⟩ | ⟨_, hj⟩
    · cases hk
    · exact h.held j call' result' objects' n' hj
  · exact h.logged.same hm ((ranOf_of_task hi).trans rfl)

theorem replace (h : Durable codec initial W)
    (hi : W.tasks[i]? = some (.replacing call result text r n))
    (hturn : r = .opening → ∀ (j : Nat) (k : SessionTask) (m : Nat), W.tasks[j]? = some k →
      k.flush = some m → n ≤ m) {m : Nat} {files : Files SessionPath UInt8} {p : Files.Progress}
    (hstep : Files.replaceStep .tmp .file text W.shared.files r (.done m) = some (files, p)) :
    Durable codec initial
      ⟨{ W.shared with files }, W.tasks.set i (.after call result text n p)⟩ := by
  obtain ⟨landed, hl⟩ := h.landing
  have hn := hl.eq_next hi hturn
  subst hn
  have hloaded : W.shared.loaded ≠ false := by
    intro hloaded
    cases h.early hloaded i _ hi
  have hne : SessionPath.file ≠ SessionPath.tmp := by simp
  rcases Files.replaceStep_done hne (hl.fits i call result text r _ hi).1 hstep with
    ⟨r', rfl, _, hfits, hread⟩ | ⟨rfl, _, hread⟩
  · have hm := World.Moved.set hi (.replacing call result text r' (landed + 1))
    refine ⟨h.roster, fun hnot ↦ absurd hnot hloaded, h.known, ?_, h.effects, h.unique,
      h.logged.same hm ((ranOf_of_task hi).trans rfl), landed, hl.go hi hfits hread⟩
    intro j call' result' objects n' hj
    rcases hm.cases hj with ⟨_, hk⟩ | ⟨_, hj⟩
    · cases hk
    · exact h.held j call' result' objects n' hj
  · have hm := World.Moved.set hi (.resolved call result)
    refine ⟨h.roster, fun hnot ↦ absurd hnot hloaded, h.known, ?_, h.effects, h.unique,
      h.logged.same hm ((ranOf_of_task hi).trans rfl), landed + 1, hl.land hi hread h.unique⟩
    intro j call' result' objects n' hj
    rcases hm.cases hj with ⟨_, hk⟩ | ⟨_, hj⟩
    · cases hk
    · exact h.held j call' result' objects n' hj

theorem step (h : Durable codec initial W) {e : Event SessionCall Files.Answer}
    (hok : orderlyStep codec W e) (hst : (sessionProg codec).step W e = some W') :
    Durable codec initial W' := by
  cases e with
  | call call =>
    cases Prog.step_call hst
    have hnew : flushOf W.tasks W.tasks.length = none := by
      rw [flushOf, List.getElem?_eq_none (Nat.le_refl _)]
      rfl
    have hran : ranOf W.tasks W.tasks.length = none := by
      rw [ranOf, List.getElem?_eq_none (Nat.le_refl _)]
      rfl
    simp only [sessionProg, sessionStart]
    split_ifs with hloaded
    · refine h.quiet (World.Moved.append _ _) hnew rfl hran ?_
      intro hnot
      rw [hloaded] at hnot
      cases hnot
    split
    · rename_i hfile
      exact h.absent (by simpa using hloaded) hfile
    refine h.quiet (World.Moved.append _ _) hnew rfl hran ?_
    intro _
    trivial
  | resume i a =>
    obtain ⟨k, s', k', hi, hr, rfl⟩ := Prog.step_resume hst
    have hk := hok k hi
    have hsame : (sessionProg codec).resume W.shared i k a = sessionResume codec W.shared i k a :=
      rfl
    rw [hsame] at hr
    cases k with
    | resolved => cases hr
    | rejected => cases hr
    | opening call =>
      have rejects := h.rejects hi rfl rfl
      cases a with
      | failed =>
        cases hr
        exact rejects _
      | done n =>
        rw [sessionResume] at hr
        split at hr
        · cases hr
          exact rejects _
        rename_i i₀ hfile
        cases hr
        exact h.quiet (World.Moved.set hi _) ((flushOf_of_task hi).trans rfl) rfl
          ((ranOf_of_task hi).trans rfl) fun _ ↦ hfile
    | reading call i₀ =>
      have rejects := h.rejects hi rfl rfl
      cases a with
      | failed =>
        cases hr
        exact rejects _
      | done n =>
        rw [sessionResume] at hr
        split at hr
        · cases hr
          exact rejects _
        rename_i records hread
        cases hr
        have hcurrent : W.shared.recordsFrom initial = records := by
          cases hloaded : W.shared.loaded with
          | true =>
            rw [Registry.recordsFrom, hk.load call i₀ records rfl hloaded hread]
            rfl
          | false =>
            have hentry : W.shared.files.entry .file = some i₀ := h.early hloaded i _ hi
            have hdisk := h.disk (h.no_flush hloaded)
            rw [loadFile, Files.read_of_entry hentry] at hdisk
            exact Except.ok.inj (hdisk.symm.trans hread)
        rw [← hcurrent]
        exact h.load hi
    | loaded call =>
      cases a with
      | failed => cases hr
      | done n =>
        have hbody : sessionBody W.shared i call = (s', k') := Option.some.inj hr
        have hrun := h.body hi fun id patch records heq ↦ hk.own id patch records (heq ▸ rfl)
        rw [hbody] at hrun
        exact hrun
    | making call result objects n =>
      cases a with
      | failed => exact absurd rfl (hk.succeeds rfl)
      | done m =>
        cases hr
        exact h.make hi
    | replacing call result text r n =>
      cases a with
      | failed => exact absurd rfl (hk.succeeds rfl)
      | done m =>
        obtain ⟨⟨files, p⟩, hreplace, hp⟩ := Option.map_eq_some_iff.mp hr
        cases hp
        exact h.replace hi (fun hr ↦ hk.turn call result text n (hr ▸ rfl)) hreplace

end Durable

/-! ## Every run -/

def AllSettled (W : World Registry SessionTask) : Prop := ∀ k ∈ W.tasks, k.settled = true

variable (codec) in
/-- Loading the file gives the records in memory, which are distinct, and are the initial ones
changed by the calls that have resolved, in some order. -/
structure RosterKept (initial : List SessionRecord) (W : World Registry SessionTask)
    (order : List (Nat × SessionCall)) : Prop where
  /-- Every call that has resolved is there once, and no other. -/
  resolved : ∀ j c, (j, c) ∈ order ↔ ∃ result, W.tasks[j]? = some (.resolved c result)
  once : (order.map Prod.fst).Nodup
  loads : loadFile codec W.shared.files =
    .ok ((order.map Prod.snd).foldl SessionCall.effect initial)
  memory : ∀ records, W.shared.records = some records →
    records = (order.map Prod.snd).foldl SessionCall.effect initial
  unique : Unique ((order.map Prod.snd).foldl SessionCall.effect initial)

theorem loadFile_unique (h : loadFile codec files = .ok initial) : Unique initial := by
  unfold loadFile at h
  split at h
  · cases h
    exact Unique.nil
  rename_i text _
  rw [loadText] at h
  cases hparse : codec.parse text with
  | error message =>
    rw [hparse] at h
    cases h
  | ok value =>
    rw [hparse] at h
    exact validateFile_unique h

theorem durable_fresh (h : loadFile codec files = .ok initial) :
    Durable codec initial (freshRegistry files) where
  roster := rfl
  early _ j k hj := by cases hj
  known _ hroster := by cases hroster
  held j _ _ _ _ hj := by cases hj
  effects := rfl
  unique := loadFile_unique h
  logged := by
    refine ⟨?_, List.nodup_nil⟩
    intro j c
    constructor
    · intro hmem
      cases hmem
    · intro hj
      cases hj
  landing := by
    refine ⟨0, .empty fun _ ↦ rfl, ?_, ?_, fun _ ↦ h⟩
    · intro j _ _ _ _ _ hj
      cases hj
    · intro j _ hj
      cases hj

/-- **The roster is durable.**  After any run of orderly steps on a file that is not refused, or
on none, once every call has settled, each of them has rejected or is reflected in the file,
which loads and gives the records in memory. -/
theorem roster_durable {files : Files SessionPath UInt8}
    (hstart : loadFile codec files = .ok initial)
    (h : Reach (sessionProg codec).step (orderlyStep codec) (freshRegistry files) W)
    (hsettled : AllSettled W) : ∃ order, RosterKept codec initial W order := by
  have hD : Durable codec initial W :=
    h.invariant (durable_fresh hstart) fun _ _ _ hI hok hst ↦ hI.step hok hst
  have hnone : ∀ j, flushOf W.tasks j = none := by
    intro j
    cases hj : W.tasks[j]? with
    | none => rw [flushOf, hj]; rfl
    | some k =>
      rw [flushOf_of_task hj]
      have hk := hsettled k (List.mem_of_getElem? hj)
      cases k with
      | resolved | rejected => rfl
      | _ => cases hk
  refine ⟨W.shared.log, ?_, hD.logged.once, ?_, ?_, ?_⟩
  · intro j c
    rw [hD.logged.mem j c]
    constructor
    · intro hran
      obtain ⟨k, hj, hk⟩ := Option.bind_eq_some_iff.mp hran
      have hset := hsettled k (List.mem_of_getElem? hj)
      cases k with
      | resolved call result =>
        cases hk
        exact ⟨result, hj⟩
      | rejected => cases hk
      | _ => cases hset
    · rintro ⟨result, hj⟩
      exact ranOf_of_task hj
  · rw [← hD.effects]
    exact hD.disk hnone
  · intro records hrecords
    rw [← hD.effects, Registry.recordsFrom, hrecords]
    rfl
  · rw [← hD.effects]
    exact hD.unique

/-! ## A create, and two that are renamed in the wrong order -/

theorem plain_fileShape (records : List SessionRecord) : (fileShape records).Plain := by
  have hrecord : ∀ r : SessionRecord, r.json.Plain := by
    intro r
    refine Json.plainFields_iff.mpr ?_
    simp only [List.forall_mem_append]
    refine ⟨⟨⟨⟨⟨⟨?_, ?_⟩, ?_⟩, ?_⟩, ?_⟩, ?_⟩, ?_⟩
    · simp [Json.Plain]
    all_goals
      refine Json.plain_given ?_
      intro v hv
      obtain ⟨text, _, rfl⟩ := Option.map_eq_some_iff.mp hv
      simp [Json.Plain, Json.PlainFields, hintJson]
  refine ⟨Json.plain_number (l := ['4']) rfl (by simp) rfl, ?_, trivial⟩
  refine Json.plainItems_iff.mpr ?_
  intro item hitem
  obtain ⟨r, _, rfl⟩ := List.mem_map.mp hitem
  exact hrecord r

noncomputable def writtenJson : RosterCodec where
  stringify := Json.bytes 2
  parse text := match Json.read 2 text with
    | some value => .ok value
    | none => .error "Unexpected end of JSON input"
  parse_stringify records := by
    rw [Json.read_bytes (plain_fileShape records)]

def chat (id resumeId : String) : SessionRecord where
  id
  resumeId
  wsId := "w"
  agent := "codex"
  name := "x1"
  createdAt := "2026-08-23T08:00:00.000Z"
  lastActiveAt := "2026-08-23T08:00:00.000Z"
  state := .paused

def chatBytes (records : List SessionRecord) : FileText := Json.bytes 2 (fileShape records)

def createOnce : List (Event SessionCall Files.Answer) :=
  [.call (.create (chat "s-1" "r-1")), .resume 0 (.done 0), .resume 0 (.done 0),
    .resume 0 (.done 0), .resume 0 (.done (chatBytes [chat "s-1" "r-1"]).length),
    .resume 0 (.done 0)]

theorem orderly_alone {m : Nat} (htasks : W.tasks = [k])
    (hreading : ∀ call i, k ≠ .reading call i)
    (hupdate : ∀ id patch, k ≠ .loaded (.update id patch)) :
    orderlyStep codec W (.resume 0 (.done m)) := by
  intro k' hk'
  rw [htasks] at hk'
  cases hk'
  refine ⟨?_, ?_, ?_, ?_⟩
  · intro call i records hk
    exact absurd hk (hreading call i)
  · intro id patch records hk
    exact absurd hk (hupdate id patch)
  · intro _ ha
    cases ha
  · rintro call result text n rfl j k' m hj hm
    rw [htasks] at hj
    cases j with
    | zero =>
      cases hj
      cases hm
      exact Nat.le_refl _
    | succ j => cases hj

noncomputable def createdUpTo (n : Nat) : World Registry SessionTask :=
  after (sessionProg writtenJson).step (freshRegistry .empty) (createOnce.take n)

/-- One create on its own. -/
theorem roster_durable_createOnce : ∃ order, RosterKept writtenJson [] (createdUpTo 6) order := by
  have htasks : (createdUpTo 1).tasks = [.loaded (.create (chat "s-1" "r-1"))] ∧
      (createdUpTo 2).tasks = [.making (.create (chat "s-1" "r-1")) [] [0] 1] ∧
      (createdUpTo 3).tasks = [.replacing (.create (chat "s-1" "r-1")) []
        (chatBytes [chat "s-1" "r-1"]) .opening 1] ∧
      (createdUpTo 4).tasks = [.replacing (.create (chat "s-1" "r-1")) []
        (chatBytes [chat "s-1" "r-1"]) (.writing 0 0) 1] ∧
      (createdUpTo 5).tasks = [.replacing (.create (chat "s-1" "r-1")) []
        (chatBytes [chat "s-1" "r-1"]) .moving 1] ∧
      (createdUpTo 6).tasks = [.resolved (.create (chat "s-1" "r-1")) []] := by
    decide +kernel
  obtain ⟨h₁, h₂, h₃, h₄, h₅, h₆⟩ := htasks
  have hrun : Reach (sessionProg writtenJson).step (orderlyStep writtenJson)
      (freshRegistry .empty) (createdUpTo 6) := by
    refine Reach.of_after createOnce (by decide +kernel) ?_
    intro n e he
    rcases n with _ | _ | _ | _ | _ | _ | n
    · cases he
      trivial
    · cases he
      exact orderly_alone h₁ (by simp) (by simp)
    · cases he
      exact orderly_alone h₂ (by simp) (by simp)
    · cases he
      exact orderly_alone h₃ (by simp) (by simp)
    · cases he
      exact orderly_alone h₄ (by simp) (by simp)
    · cases he
      exact orderly_alone h₅ (by simp) (by simp)
    · cases he
  refine roster_durable rfl hrun ?_
  intro k hk
  rw [h₆, List.mem_singleton] at hk
  rw [hk]
  rfl

def olderLast : List (Event SessionCall Files.Answer) :=
  [.call (.create (chat "s-1" "r-1")), .call (.create (chat "s-2" "r-2")),
    .resume 0 (.done 0), .resume 1 (.done 0), .resume 0 (.done 0), .resume 1 (.done 0),
    .resume 1 (.done 0), .resume 1 (.done (chatBytes [chat "s-1" "r-1", chat "s-2" "r-2"]).length),
    .resume 1 (.done 0), .resume 0 (.done 0),
    .resume 0 (.done (chatBytes [chat "s-1" "r-1"]).length), .resume 0 (.done 0)]

/-- **A session is lost that was created**: both calls have resolved, no operation has failed,
and the file holds one session while there are two in memory. -/
theorem older_flush_lands_last :
    ∃ W, Reach (sessionProg writtenJson).step (fun _ e ↦ ∀ i, e ≠ .resume i .failed)
        (freshRegistry .empty) W ∧ AllSettled W ∧ ¬ ∃ order, RosterKept writtenJson [] W order := by
  have hfinal : (after (sessionProg writtenJson).step (freshRegistry .empty) olderLast).tasks =
        [.resolved (.create (chat "s-1" "r-1")) [], .resolved (.create (chat "s-2" "r-2")) []] ∧
      (after (sessionProg writtenJson).step (freshRegistry .empty) olderLast).shared.files.read
        .file = some (chatBytes [chat "s-1" "r-1"]) ∧
      (after (sessionProg writtenJson).step (freshRegistry .empty) olderLast).shared.records =
        some [chat "s-1" "r-1", chat "s-2" "r-2"] := by
    decide +kernel
  obtain ⟨htasks, hread, hmemory⟩ := hfinal
  refine ⟨_, Reach.of_after olderLast (by decide +kernel) ?_, ?_, ?_⟩
  · intro n e he i
    have hmem : ∀ e ∈ olderLast, e ≠ .resume i .failed := by simp [olderLast]
    exact hmem e (List.mem_of_getElem? he)
  · intro k hk
    rw [htasks] at hk
    rcases List.mem_cons.mp hk with rfl | hk
    · rfl
    · rw [List.mem_singleton.mp hk]
      rfl
  · rintro ⟨order, hkept⟩
    have hone : Unique [chat "s-1" "r-1"] := ⟨by simp, by simp⟩
    have hloads : loadFile writtenJson (after (sessionProg writtenJson).step
        (freshRegistry .empty) olderLast).shared.files = .ok [chat "s-1" "r-1"] := by
      rw [loadFile, hread]
      have hparse := writtenJson.parse_stringify [chat "s-1" "r-1"]
      exact (congrArg (· >>= validateFile) hparse).trans (validateFile_fileShape hone)
    have hfile := Except.ok.inj (hloads.symm.trans hkept.loads)
    have hrecords := hkept.memory _ hmemory
    rw [← hfile] at hrecords
    cases hrecords

end OpenAlice.Workspaces
