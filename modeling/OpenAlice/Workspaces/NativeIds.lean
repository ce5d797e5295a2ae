import OpenAlice.Run.Basic
import OpenAlice.Workspaces.TranscriptWatcher
import Mathlib.Logic.Relator

/-!
# A native conversation belongs to one product session

A product session is bound to a native id by the session that runs for it, or by its `resumeHint`
(`Bound`).  The watcher binds what is free on both sides (`Free`) as long as its registrations do
not get in each other's way: when a list or an event arrives, each registration that still waits
either has seen the native session before or finds it free (`Orderly`).  Then no native id is ever
bound twice, and no binding changes.

Two registrations that wait at the same time get in each other's way at once: a native session that
the first one got is new to the second one too, and the next tick, or the next event of the same
file, gives it away again (`conversation_bound_twice`).
-/

namespace OpenAlice.Workspaces

open OpenAlice.Run

variable {File Id Session Record : Type}

namespace Watcher

variable {recordId : Session → Record} {w w' : Watcher File Id Session Record} {session : Session}
  {r r' : Record}

section Native

variable {id id' : Id}

/-! ## Bindings -/

def Bound (recordId : Session → Record) (w : Watcher File Id Session Record) (r : Record)
    (id : Id) : Prop :=
  w.resumeHint r = some id ∨ ∃ session, recordId session = r ∧ w.agentSessionId session = some id

structure Free (recordId : Session → Record) (w : Watcher File Id Session Record) (r : Record)
    (id : Id) : Prop where
  record : ∀ id', ¬ Bound recordId w r id'
  native : ∀ r', ¬ Bound recordId w r' id

structure Settled (recordId : Session → Record) (w : Watcher File Id Session Record) : Prop where
  unique : Relator.BiUnique (Bound recordId w)
  updates : ∀ u ∈ w.updates, Bound recordId w u.1 u.2

/-- No binding is changed. -/
structure Grows (w w' : Watcher File Id Session Record) : Prop where
  agentSessionId : ∀ session id,
    w.agentSessionId session = some id → w'.agentSessionId session = some id
  resumeHint : ∀ r id, w.resumeHint r = some id → w'.resumeHint r = some id

theorem Grows.refl (w : Watcher File Id Session Record) : Grows w w :=
  ⟨fun _ _ h ↦ h, fun _ _ h ↦ h⟩

theorem Grows.trans {w'' : Watcher File Id Session Record} (h : Grows w w') (h' : Grows w' w'') :
    Grows w w'' :=
  ⟨fun session id hid ↦ h'.agentSessionId session id (h.agentSessionId session id hid),
    fun r id hid ↦ h'.resumeHint r id (h.resumeHint r id hid)⟩

structure Advances (recordId : Session → Record) (w w' : Watcher File Id Session Record) :
    Prop where
  settled : Settled recordId w'
  grows : Grows w w'

theorem Advances.of_eq {v : Watcher File Id Session Record} (h : Advances recordId w v)
    (hagent : w'.agentSessionId = v.agentSessionId) (hhint : w'.resumeHint = v.resumeHint)
    (hupdates : ∀ u ∈ w'.updates, u ∈ v.updates) : Advances recordId w w' := by
  have hbound : Bound recordId w' = Bound recordId v := by
    funext r id
    rw [Bound, Bound, hagent, hhint]
  refine ⟨⟨hbound ▸ h.settled.unique, fun u hu ↦ hbound ▸ h.settled.updates u (hupdates u hu)⟩,
    h.grows.trans ⟨?_, ?_⟩⟩
  · intro session id hid
    rwa [hagent]
  · intro r id hid
    rwa [hhint]

theorem Settled.advances (h : Settled recordId w) : Advances recordId w w := ⟨h, .refl w⟩

theorem biUnique_of_free {R R' : Record → Id → Prop} (h : Relator.BiUnique R)
    (hr : ∀ id', ¬ R r id')
    (hid : ∀ r', ¬ R r' id) (hR : ∀ a x, R' a x → R a x ∨ a = r ∧ x = id) :
    Relator.BiUnique R' := by
  constructor
  · intro a b x ha hb
    rcases hR a x ha with ha | ⟨rfl, rfl⟩
    · rcases hR b x hb with hb | ⟨rfl, rfl⟩
      · exact h.1 ha hb
      · exact absurd ha (hid a)
    rcases hR b x hb with hb | ⟨rfl, -⟩
    · exact absurd hb (hid b)
    · rfl
  · intro a x y hx hy
    rcases hR a x hx with hx | ⟨rfl, rfl⟩
    · rcases hR a y hy with hy | ⟨rfl, rfl⟩
      · exact h.2 hx hy
      · exact absurd hx (hr x)
    rcases hR a y hy with hy | ⟨-, rfl⟩
    · exact absurd hy (hr y)
    · rfl

theorem Bound.mono (hgrows : Grows w w') (h : Bound recordId w r id) : Bound recordId w' r id := by
  rcases h with hhint | ⟨session, hrecord, hid⟩
  · exact .inl (hgrows.resumeHint r id hhint)
  · exact .inr ⟨session, hrecord, hgrows.agentSessionId session id hid⟩

theorem waits_eq_false {ι : Type} {p : Pending Session ι} :
    w.waits p = false ↔ w.agentSessionId p.session ≠ none := by
  rw [waits, Option.isNone_eq_false_iff, Option.isSome_iff_ne_none]

section Bind

variable [DecidableEq Session]

theorem bind_agentSessionId (hwaits : w.agentSessionId session = none) :
    (w.bind recordId session id).agentSessionId =
      Function.update w.agentSessionId session (some id) := by
  rw [bind, setAgentSessionId, hwaits]
  rfl

theorem bind_resumeHint : (w.bind recordId session id).resumeHint = w.resumeHint := by
  rw [bind, setAgentSessionId]
  split_ifs <;> rfl

theorem bind_updates :
    (w.bind recordId session id).updates = w.updates ++ [(recordId session, id)] := by
  rw [bind, setAgentSessionId]
  split_ifs <;> rfl

theorem bound_bind (hwaits : w.agentSessionId session = none)
    (h : Bound recordId (w.bind recordId session id) r id') :
    Bound recordId w r id' ∨ r = recordId session ∧ id' = id := by
  rcases h with hhint | ⟨other, rfl, hother⟩
  · rw [bind_resumeHint] at hhint
    exact .inl (.inl hhint)
  rw [bind_agentSessionId hwaits] at hother
  rcases eq_or_ne other session with rfl | hne
  · rw [Function.update_self] at hother
    exact .inr ⟨rfl, (Option.some.inj hother).symm⟩
  · rw [Function.update_of_ne hne] at hother
    exact .inl (.inr ⟨other, rfl, hother⟩)

theorem grows_bind (hwaits : w.agentSessionId session = none) :
    Grows w (w.bind recordId session id) := by
  refine ⟨fun other id' hother ↦ ?_, fun r id' hid ↦ ?_⟩
  · rw [bind_agentSessionId hwaits]
    have hne : other ≠ session := by
      rintro rfl
      rw [hwaits] at hother
      cases hother
    rwa [Function.update_of_ne hne]
  · rwa [bind_resumeHint]

theorem Settled.bind (h : Settled recordId w) (hwaits : w.agentSessionId session = none)
    (hfree : Free recordId w (recordId session) id) :
    Settled recordId (w.bind recordId session id) := by
  refine ⟨biUnique_of_free h.unique hfree.record hfree.native fun a x ↦ bound_bind hwaits, ?_⟩
  intro u hu
  rw [bind_updates] at hu
  rcases List.mem_append.mp hu with hu | hu
  · exact (h.updates u hu).mono (grows_bind hwaits)
  rw [List.mem_singleton.mp hu]
  refine .inr ⟨session, rfl, ?_⟩
  rw [bind_agentSessionId hwaits, Function.update_self]

end Bind

/-! ## The loops -/

section Loops

def Served {ι : Type} (w : Watcher File Id Session Record) (found : List ι)
    (p : Pending Session ι) : Prop :=
  w.agentSessionId p.session = none ∧ ∃ x ∈ found, x ∉ p.existingBefore

/-- The registrations do not get in each other's way: what those that wait have not seen is free,
and no two of them are for one product session. -/
structure Apart (recordId : Session → Record) (w : Watcher File Id Session Record)
    (found : List Id) (claimed : List Id) (pending : List (Pending Session Id)) : Prop where
  free : ∀ p ∈ pending, w.agentSessionId p.session = none →
    ∀ id ∈ found, id ∉ p.existingBefore → id ∉ claimed → Free recordId w (recordId p.session) id
  records : pending.Pairwise fun p q ↦
    Served w found p → Served w found q → recordId p.session ≠ recordId q.session

variable [DecidableEq Session]

/-- **The loop of `pollOnce`.** -/
theorem settled_assign [DecidableEq Id] {found claimed : List Id}
    {pending : List (Pending Session Id)}
    (h : Settled recordId w) (hapart : Apart recordId w found claimed pending) :
    Advances recordId w (assign recordId found pending claimed w) := by
  induction pending generalizing w claimed with
  | nil => exact h.advances
  | cons p rest ih =>
    obtain ⟨hfirst, hrest⟩ := List.pairwise_cons.mp hapart.records
    have hrestFree := fun q hq ↦ hapart.free q (List.mem_cons_of_mem p hq)
    rw [assign]
    split_ifs with hwaits
    · exact ih h ⟨hrestFree, hrest⟩
    have hnone : w.agentSessionId p.session = none := by
      by_contra hne
      exact hwaits (waits_eq_false.mpr hne)
    cases hfind : found.find? fun id ↦ id ∉ p.existingBefore ∧ id ∉ claimed with
    | none => exact ih h ⟨hrestFree, hrest⟩
    | some id =>
      have hmem : id ∈ found := List.mem_of_find?_eq_some hfind
      obtain ⟨hunseen, hunclaimed⟩ : id ∉ p.existingBefore ∧ id ∉ claimed := by
        simpa using List.find?_some hfind
      have hfree := hapart.free p List.mem_cons_self hnone id hmem hunseen hunclaimed
      have hgrows : Grows w (w.bind recordId p.session id) := grows_bind hnone
      have hbefore (q : Pending Session Id)
          (hq : (w.bind recordId p.session id).agentSessionId q.session = none) :
          w.agentSessionId q.session = none := by
        by_contra hne
        obtain ⟨id', hid'⟩ := Option.ne_none_iff_exists'.mp hne
        rw [hgrows.agentSessionId _ _ hid'] at hq
        cases hq
      -- What is left is free still: it is another id, for another product session.
      have hleft : Apart recordId (w.bind recordId p.session id) found (id :: claimed) rest := by
        refine ⟨fun q hq hqnone id' hid' hseen hclaimed ↦ ?_, hrest.imp fun hne hq hq' ↦ ?_⟩
        · rw [List.mem_cons, not_or] at hclaimed
          have hother : recordId p.session ≠ recordId q.session :=
            hfirst q hq ⟨hnone, id, hmem, hunseen⟩ ⟨hbefore q hqnone, id', hid', hseen⟩
          have hfree' := hrestFree q hq (hbefore q hqnone) id' hid' hseen hclaimed.2
          constructor
          · intro x hx
            rcases bound_bind hnone hx with hx | ⟨heq, -⟩
            · exact hfree'.record x hx
            · exact hother heq.symm
          intro r hr
          rcases bound_bind hnone hr with hr | ⟨-, heq⟩
          · exact hfree'.native r hr
          · exact hclaimed.1 heq
        · exact hne ⟨hbefore _ hq.1, hq.2⟩ ⟨hbefore _ hq'.1, hq'.2⟩
      have hmore := ih (h.bind hnone hfree) hleft
      exact ⟨hmore.settled, hgrows.trans hmore.grows⟩

variable [DecidableEq File] {extractSessionId : File → Option Id}

def claimant (w : Watcher File Id Session Record) (filename : File)
    (pending : List (Pending Session File)) : Option (Pending Session File) :=
  pending.find? fun p ↦ filename ∉ p.existingBefore ∧ w.agentSessionId p.session = none

/-- **The loop of `onEvent`.** -/
theorem settled_claimFile {filename : File} {pending : List (Pending Session File)}
    (h : Settled recordId w)
    (hfree : ∀ p id, w.claimant filename pending = some p → extractSessionId filename = some id →
      Free recordId w (recordId p.session) id) :
    Advances recordId w (claimFile recordId extractSessionId filename pending w) := by
  induction pending with
  | nil => exact h.advances
  | cons p rest ih =>
    rw [claimFile]
    split_ifs with hskip
    · refine ih fun q id hq ↦ hfree q id ?_
      rw [claimant, List.find?_cons_of_neg]
      · exact hq
      rcases hskip with hseen | hwaits
      · simp [hseen]
      · simp [waits_eq_false.mp hwaits]
    · rw [not_or, Bool.not_eq_false] at hskip
      have hnone : w.agentSessionId p.session = none := Option.isNone_iff_eq_none.mp hskip.2
      cases hid : extractSessionId filename with
      | none => exact h.advances
      | some id =>
        have hclaimant : w.claimant filename (p :: rest) = some p := by
          rw [claimant, List.find?_cons_of_pos]
          simp [hskip.1, hnone]
        have hsettled := h.bind hnone (hfree p id hclaimant hid)
        have hclaimed : Advances recordId w (w.bind recordId p.session id) :=
          ⟨hsettled, grows_bind hnone⟩
        exact hclaimed.of_eq rfl rfl fun _ hu ↦ hu

end Loops

/-! ## Runs -/

theorem mem_byOldest {list : List (OnDiskSession Id)} :
    id ∈ byOldest list ↔ id ∈ list.map OnDiskSession.sessionId :=
  ((List.perm_insertionSort _ list).map OnDiskSession.sessionId).mem_iff

theorem Apart.byOldest {list : List (OnDiskSession Id)} {pending : List (Pending Session Id)}
    (h : Apart recordId w (list.map OnDiskSession.sessionId) [] pending) :
    Apart recordId w (byOldest list) [] pending := by
  have hserved (p : Pending Session Id) (hp : Served w (Watcher.byOldest list) p) :
      Served w (list.map OnDiskSession.sessionId) p := by
    obtain ⟨hnone, x, hx, hunseen⟩ := hp
    exact ⟨hnone, x, mem_byOldest.mp hx, hunseen⟩
  refine ⟨fun p hp hnone id hid ↦ h.free p hp hnone id (mem_byOldest.mp hid), ?_⟩
  exact h.records.imp fun hne hp hq ↦ hne (hserved _ hp) (hserved _ hq)

theorem Settled.update [DecidableEq Record] (h : Settled recordId w)
    (hbound : Bound recordId w r id) :
    Advances recordId w (w.update r id) := by
  have hback (a : Record) (x : Id) (ha : Bound recordId (w.update r id) a x) :
      Bound recordId w a x := by
    rcases ha with hhint | hagent
    · rcases eq_or_ne a r with rfl | hne
      · rw [update_resumeHint, Function.update_self] at hhint
        rwa [← Option.some.inj hhint]
      · rw [update_resumeHint, Function.update_of_ne hne] at hhint
        exact .inl hhint
    · exact .inr hagent
  have hgrows : Grows w (w.update r id) := by
    refine ⟨fun _ _ hid ↦ hid, fun a x hx ↦ ?_⟩
    rw [update_resumeHint]
    rcases eq_or_ne a r with rfl | hne
    · rw [Function.update_self, h.unique.2 (.inl hx) hbound]
    · rwa [Function.update_of_ne hne]
  refine ⟨⟨⟨fun a b x ha hb ↦ ?_, fun a x y hx hy ↦ ?_⟩, fun u hu ↦ ?_⟩, hgrows⟩
  · exact h.unique.1 (hback a x ha) (hback b x hb)
  · exact h.unique.2 (hback a x hx) (hback a y hy)
  · exact (h.updates u hu).mono hgrows

/-- Before anything runs: the records may have hints, no two of them the same one. -/
structure Started (w : Watcher File Id Session Record) : Prop where
  sessions : ∀ session, w.agentSessionId session = none
  hints : ∀ r r' id, w.resumeHint r = some id → w.resumeHint r' = some id → r = r'
  updates : w.updates = []

theorem Started.settled (h : Started w) (recordId : Session → Record) : Settled recordId w := by
  have hhint (r : Record) (id : Id) (hbound : Bound recordId w r id) : w.resumeHint r = some id := by
    rcases hbound with hhint | ⟨session, -, hid⟩
    · exact hhint
    · rw [h.sessions] at hid
      cases hid
  refine ⟨⟨fun a b x ha hb ↦ h.hints a b x (hhint a x ha) (hhint b x hb), ?_⟩, ?_⟩
  · intro a x y hx hy
    exact Option.some.inj ((hhint a x hx).symm.trans (hhint a y hy))
  intro u hu
  rw [h.updates] at hu
  exact absurd hu List.not_mem_nil

section Steps

variable [DecidableEq File] [DecidableEq Id] [DecidableEq Session] [DecidableEq Record]
variable {fileRe : File → Bool} {extractSessionId : File → Option Id}

/-- A list finds the registrations apart, and what an event shows is free for the registration
that it serves. -/
def Orderly (recordId : Session → Record) (extractSessionId : File → Option Id)
    (w : Watcher File Id Session Record) : WatchEvent File Id Session → Prop
  | .statted i true => ∀ e filename, w.statting[i]? = some (e, filename) →
      ∀ p id, w.claimant filename (w.watched e) = some p → extractSessionId filename = some id →
        Free recordId w (recordId p.session) id
  | .listed i (some list) => ∀ e, w.listing[i]? = some e →
      Apart recordId w (list.map OnDiskSession.sessionId) [] (w.polled e)
  | _ => True

theorem settled_step {event : WatchEvent File Id Session} (h : Settled recordId w)
    (hok : Orderly recordId extractSessionId w event)
    (hstep : w.step recordId fileRe extractSessionId event = some w') :
    Advances recordId w w' := by
  have hsame {v : Watcher File Id Session Record} (hv : some v = some w')
      (hagent : v.agentSessionId = w.agentSessionId) (hhint : v.resumeHint = w.resumeHint)
      (hupdates : ∀ u ∈ v.updates, u ∈ w.updates) : Advances recordId w w' := by
    cases hv
    exact h.advances.of_eq hagent hhint hupdates
  cases event with
  | registerWatched session existing => exact hsame hstep rfl rfl fun _ hu ↦ hu
  | registerSubprocess session existing => exact hsame hstep rfl rfl fun _ hu ↦ hu
  | unregister session => exact hsame hstep rfl rfl fun _ hu ↦ hu
  | disposeAll => exact hsame hstep rfl rfl fun _ hu ↦ hu
  | updateLost i => exact hsame hstep rfl rfl fun _ hu ↦ List.mem_of_mem_eraseIdx hu
  | onEvent filename =>
    rw [step] at hstep
    split at hstep
    · exact hsame hstep rfl rfl fun _ hu ↦ hu
    split_ifs at hstep
    · exact hsame hstep rfl rfl fun _ hu ↦ hu
    · exact hsame hstep rfl rfl fun _ hu ↦ hu
  | pollOnce expired =>
    rw [step] at hstep
    split at hstep
    · exact hsame hstep rfl rfl fun _ hu ↦ hu
    dsimp only at hstep
    split_ifs at hstep
    · exact hsame hstep rfl rfl fun _ hu ↦ hu
    · exact hsame hstep rfl rfl fun _ hu ↦ hu
  | statted i found =>
    rw [step] at hstep
    cases hi : w.statting[i]? with
    | none =>
      rw [hi] at hstep
      cases hstep
    | some waiting =>
      obtain ⟨e, filename⟩ := waiting
      rw [hi] at hstep
      cases found with
      | false => exact hsame hstep rfl rfl fun _ hu ↦ hu
      | true =>
        cases hstep
        exact (settled_claimFile h (hok e filename hi)).of_eq rfl rfl fun _ hu ↦ hu
  | listed i list =>
    rw [step] at hstep
    cases hi : w.listing[i]? with
    | none =>
      rw [hi] at hstep
      cases hstep
    | some e =>
      rw [hi] at hstep
      cases list with
      | none => exact hsame hstep rfl rfl fun _ hu ↦ hu
      | some list =>
        cases hstep
        exact (settled_assign h (hok e hi).byOldest).of_eq rfl rfl fun _ hu ↦ hu
  | updated i =>
    rw [step] at hstep
    cases hi : w.updates[i]? with
    | none =>
      rw [hi] at hstep
      cases hstep
    | some u =>
      rw [hi] at hstep
      cases hstep
      have hupdate := h.update (h.updates u (List.mem_of_getElem? hi))
      exact hupdate.of_eq rfl rfl fun _ hu ↦ List.mem_of_mem_eraseIdx hu

/-- **A native conversation belongs to one product session**, from start to end, in every run whose
registrations do not get in each other's way. -/
theorem conversation_kept {s₀ s t : Watcher File Id Session Record} (h₀ : Started s₀)
    (h : Reach (step recordId fileRe extractSessionId) (Orderly recordId extractSessionId) s₀ s)
    (h' : Reach (step recordId fileRe extractSessionId) (Orderly recordId extractSessionId) s t) :
    Relator.BiUnique (Bound recordId s) ∧ Grows s t := by
  have hs : Settled recordId s :=
    h.invariant (h₀.settled recordId) fun a e b ha hok hstep ↦ (settled_step ha hok hstep).settled
  refine ⟨hs.unique, ?_⟩
  have ht : Advances recordId s t :=
    h'.invariant hs.advances fun a e b ha hok hstep ↦ by
      have hb := settled_step ha.settled hok hstep
      exact ⟨hb.settled, ha.grows.trans hb.grows⟩
  exact ht.grows

end Steps

end Native

/-! ## Sample runs -/

def idle : Watcher String String Nat Nat where
  agentSessionId _ := none
  resumeHint _ := none

def sampleStep : Watcher String String Nat Nat → WatchEvent String String Nat →
    Option (Watcher String String Nat Nat) :=
  step id (fun _ ↦ true) some

theorem started_idle : Started idle := by
  refine ⟨fun _ ↦ rfl, ?_, rfl⟩
  rintro r r' x ⟨⟩

def oneSession : List (WatchEvent String String Nat) :=
  [.registerSubprocess 1 [], .pollOnce false, .listed 0 (some [⟨"ses_1", 1⟩])]

theorem orderly_oneSession : ExecOk sampleStep (Orderly id some) idle oneSession := by
  refine ⟨trivial, fun s₁ h₁ ↦ ⟨trivial, fun s₂ h₂ ↦ ⟨fun e he ↦ ?_, fun _ _ ↦ trivial⟩⟩⟩
  cases h₁
  cases h₂
  cases he
  refine ⟨fun p hp hnone x hx hunseen hclaimed ↦ ⟨?_, ?_⟩, List.pairwise_singleton _ _⟩
  · rintro id' (h | ⟨session, -, h⟩) <;> cases h
  · rintro r (h | ⟨session, -, h⟩) <;> cases h

/-- The update of the record follows. -/
theorem conversation_kept_oneSession :
    Relator.BiUnique (Bound id (after sampleStep idle oneSession)) ∧
      Grows (after sampleStep idle oneSession)
        (after sampleStep idle (oneSession ++ [.updated 0])) :=
  conversation_kept started_idle
    (.of_execOk (rfl : exec sampleStep idle oneSession = _) orderly_oneSession)
    (.single (e := .updated 0) trivial rfl)

def twoSessions : List (WatchEvent String String Nat) :=
  [.registerSubprocess 1 [], .registerSubprocess 2 [], .pollOnce false,
    .listed 0 (some [⟨"ses_1", 1⟩]), .pollOnce false, .listed 0 (some [⟨"ses_1", 1⟩])]

/-- The second tick gives the native session away again. -/
theorem conversation_bound_twice :
    ∃ t, Reach sampleStep anyStep idle t ∧ Bound id t 1 "ses_1" ∧ Bound id t 2 "ses_1" := by
  refine ⟨after sampleStep idle twoSessions, .of_exec twoSessions rfl, ?_, ?_⟩
  · exact .inr ⟨1, rfl, rfl⟩
  · exact .inr ⟨2, rfl, rfl⟩

end Watcher

end OpenAlice.Workspaces
