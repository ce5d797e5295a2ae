import Mathlib.Data.List.Nodup
import OpenAlice.Auth.SessionStore
import OpenAlice.Data.JsonText

/-!
# A revoked login stays revoked

All writes share a temporary file, and nothing but `writePromise` keeps them apart: two calls
that wait for the same write start theirs together when it ends.  A load that ends after
another one puts what it has read in the place of what was changed since, and one that fails
finds no session.  A write that fails leaves its promise behind, and every call after it waits
for that.  And a call that revokes what another one has taken out of memory already returns
at once, though the file may still have it.  `orderlyStep` is the condition that none of this
happens.

Every call has an effect.  The invariant says where it holds: in memory as soon as the call
has run, in what is being written as soon as that is the call's own write, and in the file when
the call returns.
-/

namespace OpenAlice.Auth

open OpenAlice.Data OpenAlice.Run

variable (codec : SessionCodec)

/-! ## The condition -/

def SessionTask.effect : SessionTask → Option Effect
  | .waiting effect _ _ | .making effect _ _ _ | .replacing effect _ _ _ _ | .chmodding effect _ _
  | .resolved effect _ => some effect
  | _ => none

def SessionTask.underWay : SessionTask → Bool
  | .making _ _ _ _ | .replacing _ _ _ _ _ | .chmodding _ _ _ => true
  | _ => false

def SessionTask.Writes (s : SessionStore) (sessions : List SessionRecord) : SessionTask → Prop
  | .making _ _ _ objects => s.contents objects = sessions
  | .replacing _ _ _ text _ => text = codec.stringify sessions
  | _ => False

def Nowhere (W : World SessionStore SessionTask) (p : SessionRecord → Prop) : Prop :=
  (∀ sess ∈ loadFile codec W.shared.files, ¬ p sess) ∧
    ∀ (j : Nat) k sessions, W.tasks[j]? = some k → k.Writes codec W.shared sessions →
      ∀ sess ∈ sessions, ¬ p sess

/-- A call may run when `sessions` are in memory. -/
def MayRun (W : World SessionStore SessionTask) (sessions : List SessionRecord) :
    SessionCall → Prop
  | .createSession sid _ _ _ => sid ∉ W.shared.issued
  | .validateAndTouch _ _ => True
  | .revokeSession sid =>
    (∀ sess ∈ sessions, sess.sid ≠ sid) → Nowhere codec W fun sess ↦ sess.sid = sid
  | .revokeAllSessions => sessions = [] → Nowhere codec W fun _ ↦ True

def SessionTask.loads (s : SessionStore) : SessionTask → Option (SessionCall × List SessionRecord)
  | .opening call => if s.files.entry .file = none then some (call, []) else none
  | .reading call i => some (call, loadText codec (s.files.text i))
  | _ => none

/-- The answer `a` to a call that stands at `k` is one that does no harm. -/
structure Orderly (W : World SessionStore SessionTask) (a : Files.Answer) (k : SessionTask) :
    Prop where
  /-- A load that ends when the file has been loaded has read what is in memory. -/
  load : ∀ call sessions, k.loads codec W.shared = some (call, sessions) →
    ∀ objects, W.shared.cache = some objects → W.shared.contents objects = sessions
  run : ∀ call sessions, k.loads codec W.shared = some (call, sessions) →
    MayRun codec W sessions call
  /-- No operation fails but `chmod`. -/
  succeeds : a = .failed → ∃ effect result write, k = .chmodding effect result write
  turn : ∀ effect result write, k = .waiting effect result write →
    ∀ (j : Nat) k', W.tasks[j]? = some k' → k'.underWay = false

def orderlyStep (W : World SessionStore SessionTask) : SessionEvent → Prop
  | .run (.call (call, _)) =>
    ∀ objects, W.shared.cache = some objects → MayRun codec W (W.shared.contents objects) call
  | .run (.resume i (a, _)) => ∀ k, W.tasks[i]? = some k → Orderly codec W a k
  | .crash => True

/-! ## Effects -/

variable {codec} {s s' : SessionStore} {W W' : World SessionStore SessionTask}
variable {tasks' : List SessionTask} {i : Nat} {k k' : SessionTask} {e e' : Effect}
variable {X X' : List SessionRecord} {objects objects' : List Nat}
variable {result : Option SessionRecord} {write : Nat} {text : List UInt8}

structure Effect.Holds (s : SessionStore) (X : List SessionRecord) (e : Effect) : Prop where
  revokes : ∀ sid ∈ e.revokes, ∀ sess ∈ X, sess.sid ≠ sid
  creates : ∀ sid, e.creates = some sid → sid ∈ s.removed ∨ ∃ sess ∈ X, sess.sid = sid
  sets : ∀ sid n, e.sets = some (sid, n) → ∀ sess ∈ X, sess.sid = sid →
    ∃ m, n ≤ m ∧ (s.history sid)[m]? = some sess

structure Effect.Known (s : SessionStore) (e : Effect) : Prop where
  revokes : ∀ sid ∈ e.revokes, sid ∈ s.issued
  sets : ∀ sid n, e.sets = some (sid, n) → sid ∈ s.issued ∧ n < (s.history sid).length

structure Sound (s : SessionStore) (X : List SessionRecord) : Prop where
  distinct : (X.map SessionRecord.sid).Nodup
  issued : ∀ sess ∈ X, sess.sid ∈ s.issued

/-- More was issued, removed and written. -/
structure Grows (s s' : SessionStore) : Prop where
  issued : ∀ sid ∈ s.issued, sid ∈ s'.issued
  removed : ∀ sid ∈ s.removed, sid ∈ s'.removed
  history : ∀ sid, ∃ more, s'.history sid = s.history sid ++ more

namespace Grows

variable (h : Grows s s')
include h

theorem place {sid : String} {m : Nat} {sess : SessionRecord}
    (hm : (s.history sid)[m]? = some sess) : (s'.history sid)[m]? = some sess := by
  obtain ⟨more, hmore⟩ := h.history sid
  rw [hmore, List.getElem?_append_left (List.getElem?_eq_some_iff.mp hm).1, hm]

theorem length_le (sid : String) : (s.history sid).length ≤ (s'.history sid).length := by
  obtain ⟨more, hmore⟩ := h.history sid
  rw [hmore, List.length_append]
  exact Nat.le_add_right _ _

theorem known (he : e.Known s) : e.Known s' where
  revokes sid hsid := h.issued sid (he.revokes sid hsid)
  sets sid n hn :=
    ⟨h.issued sid (he.sets sid n hn).1, Nat.lt_of_lt_of_le (he.sets sid n hn).2 (h.length_le sid)⟩

theorem holds (he : e.Holds s X) : e.Holds s' X where
  revokes := he.revokes
  creates sid hsid := (he.creates sid hsid).imp (h.removed sid) id
  sets sid n hn sess hsess heq := by
    obtain ⟨m, hle, hm⟩ := he.sets sid n hn sess hsess heq
    exact ⟨m, hle, h.place hm⟩

theorem sound (hX : Sound s X) : Sound s' X :=
  ⟨hX.distinct, fun sess hsess ↦ h.issued _ (hX.issued sess hsess)⟩

end Grows

/-! ## The invariant -/

def SessionTask.durable : SessionTask → Option Effect
  | .chmodding effect _ _ | .resolved effect _ => some effect
  | _ => none

theorem SessionTask.effect_of_durable (h : k.durable = some e) : k.effect = some e := by
  cases k with
  | chmodding | resolved => exact h
  | _ => cases h

def SessionTask.Early (files : Files SessionsPath UInt8) : SessionTask → Prop
  | .opening _ | .resolved _ _ | .lost => True
  | .reading _ i => files.entry .file = some i
  | _ => False

structure Shows (s : SessionStore) (X : List SessionRecord) (effects : Effect → Prop) : Prop where
  sound : Sound s X
  holds : ∀ e, effects e → e.Holds s X

theorem Shows.grow {p : Effect → Prop} (h : Shows s X p) (hs : Grows s s') : Shows s' X p :=
  ⟨hs.sound h.sound, fun e he ↦ hs.holds (h.holds e he)⟩

theorem Shows.mono {p q : Effect → Prop} (h : Shows s X p) (hle : ∀ e, q e → p e) :
    Shows s X q :=
  ⟨h.sound, fun e he ↦ h.holds e (hle e he)⟩

def Ran (tasks : List SessionTask) (e : Effect) : Prop :=
  ∃ (j : Nat) (k : SessionTask), tasks[j]? = some k ∧ k.effect = some e

def Landed (tasks : List SessionTask) (e : Effect) : Prop :=
  ∃ (j : Nat) (k : SessionTask), tasks[j]? = some k ∧ k.durable = some e

theorem Landed.ran {tasks : List SessionTask} (h : Landed tasks e) : Ran tasks e := by
  obtain ⟨j, k, hj, hk⟩ := h
  exact ⟨j, k, hj, SessionTask.effect_of_durable hk⟩

variable (codec) in
/-- What holds as long as every step is orderly. -/
structure Kept (W : World SessionStore SessionTask) : Prop where
  known : ∀ e, Ran W.tasks e → e.Known W.shared
  /-- What is in memory shows the effects of all calls that have run. -/
  memory : ∀ objects, W.shared.cache = some objects → (∀ o ∈ objects, o < W.shared.nextObject) ∧
      Shows W.shared (W.shared.contents objects) (Ran W.tasks)
  early : W.shared.cache = none → ∀ (j : Nat) k, W.tasks[j]? = some k → k.Early W.shared.files
  disk : Shows W.shared (loadFile codec W.shared.files) (Landed W.tasks)
  /-- What is being written shows these, and that of the call that writes it. -/
  flight : ∀ (j : Nat) k, W.tasks[j]? = some k → k.underWay = true → k.durable = none →
    ∃ X, k.Writes codec W.shared X ∧ Shows W.shared X fun e ↦ k.effect = some e ∨ Landed W.tasks e
  fits : ∀ (j : Nat) effect result write text r,
    W.tasks[j]? = some (.replacing effect result write text r) →
    W.shared.files.Fits .tmp text r
  held : ∀ (j : Nat) effect result write objects,
    W.tasks[j]? = some (.making effect result write objects) →
    ∀ o ∈ objects, o < W.shared.nextObject
  /-- One write is under way, and then there is a promise to wait for. -/
  one : ∀ (j j' : Nat) k k', W.tasks[j]? = some k → W.tasks[j']? = some k' →
    k.underWay = true → k'.underWay = true → j = j'
  promise : W.shared.writePromise = none → ∀ (j : Nat) k, W.tasks[j]? = some k → k.underWay = false
  settled : ∀ write : Nat, W.shared.writes[write]? ≠ some .rejected
  none_rejected : ∀ j : Nat, W.tasks[j]? ≠ some .rejected

/-! ## Changes in memory -/

/-- Objects are rewritten, and what they hold then gets into the history of their session. -/
structure Rewrites (s s' : SessionStore) : Prop extends Grows s s' where
  rewritten : ∀ o < s.nextObject, s'.objects o = s.objects o ∨
    (s'.objects o).sid = (s.objects o).sid ∧ ∃ m, (s.history (s.objects o).sid).length ≤ m ∧
      (s'.history (s.objects o).sid)[m]? = some (s'.objects o)

namespace Rewrites

variable {refs : List Nat} (h : Rewrites s s') (hrefs : ∀ o ∈ refs, o < s.nextObject)
include h hrefs

theorem sid_contents :
    (s'.contents refs).map SessionRecord.sid = (s.contents refs).map SessionRecord.sid := by
  simp only [SessionStore.contents, List.map_map]
  refine List.map_congr_left ?_
  intro o ho
  rcases h.rewritten o (hrefs o ho) with heq | ⟨hsid, _⟩
  · exact congrArg SessionRecord.sid heq
  · exact hsid

/-- An effect can still be seen in what some objects hold. -/
theorem holds (hknown : e.Known s) (he : e.Holds s (s.contents refs)) :
    e.Holds s' (s'.contents refs) where
  revokes sid hsid sess hsess := by
    have hmem : sess.sid ∈ (s.contents refs).map SessionRecord.sid :=
      h.sid_contents hrefs ▸ List.mem_map_of_mem hsess
    obtain ⟨old, hold, heq⟩ := List.mem_map.mp hmem
    exact heq ▸ he.revokes sid hsid old hold
  creates sid hsid := by
    refine (he.creates sid hsid).imp (h.removed sid) ?_
    rintro ⟨sess, hsess, rfl⟩
    have hmem : sess.sid ∈ (s'.contents refs).map SessionRecord.sid :=
      (h.sid_contents hrefs).symm ▸ List.mem_map_of_mem hsess
    obtain ⟨new, hnew, heq⟩ := List.mem_map.mp hmem
    exact ⟨new, hnew, heq⟩
  sets sid n hn sess hsess heq := by
    obtain ⟨o, ho, rfl⟩ := List.mem_map.mp hsess
    rcases h.rewritten o (hrefs o ho) with hsame | ⟨hsid, m, hle, hm⟩
    · rw [hsame] at heq ⊢
      obtain ⟨m, hle, hm⟩ := he.sets sid n hn _ (List.mem_map_of_mem ho) heq
      exact ⟨m, hle, h.toGrows.place hm⟩
    rw [hsid] at heq
    subst heq
    exact ⟨m, Nat.le_trans (Nat.le_of_lt (hknown.sets _ n hn).2) hle, hm⟩

theorem sound (hX : Sound s (s.contents refs)) : Sound s' (s'.contents refs) where
  distinct := h.sid_contents hrefs ▸ hX.distinct
  issued sess hsess := by
    have hmem : sess.sid ∈ (s.contents refs).map SessionRecord.sid :=
      h.sid_contents hrefs ▸ List.mem_map_of_mem hsess
    obtain ⟨old, hold, heq⟩ := List.mem_map.mp hmem
    exact heq ▸ h.issued _ (hX.issued old hold)

end Rewrites

structure Change (s s' : SessionStore) (objects objects' : List Nat) (e : Effect) : Prop
    extends Rewrites s s' where
  files : s'.files = s.files
  writes : s'.writes = s.writes
  promise : s'.writePromise = s.writePromise
  cache : s'.cache = some objects'
  next : s.nextObject ≤ s'.nextObject
  bounded : ∀ o ∈ objects', o < s'.nextObject
  sound : Sound s' (s'.contents objects')
  known : e.Known s'
  own : e.Holds s' (s'.contents objects')
  others : ∀ e' : Effect, e'.Known s → e'.Holds s (s.contents objects) →
    e'.Holds s' (s'.contents objects')

/-- **A change in memory** leaves what the other calls have done. -/
theorem Kept.change (h : Kept codec W) (hc : Change W.shared s' objects objects' e)
    (hcache : W.shared.cache = some objects) : Kept codec ⟨s', W.tasks⟩ where
  known e' he' := hc.toGrows.known (h.known e' he')
  memory objects₁ hobjects := by
    cases hc.cache.symm.trans hobjects
    refine ⟨hc.bounded, hc.sound, ?_⟩
    intro e' he'
    exact hc.others e' (h.known e' he') ((h.memory objects hcache).2.holds e' he')
  early hnone := by
    cases hc.cache.symm.trans hnone
  disk := by
    show Shows s' (loadFile codec s'.files) _
    rw [hc.files]
    exact h.disk.grow hc.toGrows
  flight j k hj hway hnot := by
    obtain ⟨X, hX, hshows⟩ := h.flight j k hj hway hnot
    cases k with
    | making effect result write refs =>
      have hrefs := h.held j effect result write refs hj
      have hcontents : W.shared.contents refs = X := hX
      subst hcontents
      refine ⟨s'.contents refs, rfl, hc.toRewrites.sound hrefs hshows.sound, ?_⟩
      intro e' he'
      refine hc.toRewrites.holds hrefs ?_ (hshows.holds e' he')
      rcases he' with he' | he'
      · exact h.known e' ⟨j, _, hj, he'⟩
      · exact h.known e' he'.ran
    | replacing => exact ⟨X, hX, hshows.grow hc.toGrows⟩
    | _ => cases hX
  fits j effect result write text r hj := by
    show s'.files.Fits _ _ _
    rw [hc.files]
    exact h.fits j effect result write text r hj
  held j effect result write refs hj o ho :=
    Nat.lt_of_lt_of_le (h.held j effect result write refs hj o ho) hc.next
  one := h.one
  promise hnone := h.promise (hc.promise ▸ hnone)
  settled write := by
    show s'.writes[write]? ≠ _
    rw [hc.writes]
    exact h.settled write
  none_rejected := h.none_rejected

/-! ## A call that moves -/

section Moves

variable {tasks : List SessionTask}

theorem Ran.of_moved (hm : World.Moved tasks tasks' i k') (h : Ran tasks' e) :
    k'.effect = some e ∨ Ran tasks e := by
  obtain ⟨j, k, hj, hk⟩ := h
  rcases hm.cases hj with ⟨_, rfl⟩ | ⟨_, hj⟩
  · exact .inl hk
  · exact .inr ⟨j, k, hj, hk⟩

theorem Landed.of_moved (hm : World.Moved tasks tasks' i k') (h : Landed tasks' e) :
    k'.durable = some e ∨ Landed tasks e := by
  obtain ⟨j, k, hj, hk⟩ := h
  rcases hm.cases hj with ⟨_, rfl⟩ | ⟨_, hj⟩
  · exact .inl hk
  · exact .inr ⟨j, k, hj, hk⟩

end Moves

theorem Kept.move (h : Kept codec W) (hm : World.Moved W.tasks tasks' i k')
    {files : Files SessionsPath UInt8} {writes : List Promise} {writePromise : Option Nat}
    (heffect : ∀ e, k'.effect = some e → e.Known W.shared ∧
      ∀ objects, W.shared.cache = some objects → e.Holds W.shared (W.shared.contents objects))
    (hearly : W.shared.cache = none → ∀ (j : Nat) k, tasks'[j]? = some k → k.Early files)
    (hdisk : Shows W.shared (loadFile codec files) (Landed tasks'))
    (hflight : ∀ (j : Nat) k, tasks'[j]? = some k → k.underWay = true → k.durable = none →
      ∃ X, k.Writes codec W.shared X ∧ Shows W.shared X fun e ↦ k.effect = some e ∨ Landed tasks' e)
    (hfits : ∀ (j : Nat) effect result write text r,
      tasks'[j]? = some (.replacing effect result write text r) → files.Fits .tmp text r)
    (hheld : ∀ effect result write objects, k' = .making effect result write objects →
      ∀ o ∈ objects, o < W.shared.nextObject)
    (hone : k'.underWay = true → ∀ (j : Nat) k, j ≠ i → W.tasks[j]? = some k → k.underWay = false)
    (hpromise : writePromise = none → ∀ (j : Nat) k, tasks'[j]? = some k → k.underWay = false)
    (hsettled : ∀ write : Nat, writes[write]? ≠ some .rejected) (hrejected : k' ≠ .rejected) :
    Kept codec ⟨{ W.shared with files, writes, writePromise }, tasks'⟩ := by
  have hsame : Grows W.shared { W.shared with files, writes, writePromise } :=
    ⟨fun _ h ↦ h, fun _ h ↦ h, fun _ ↦ ⟨[], (List.append_nil _).symm⟩⟩
  refine ⟨?_, ?_, hearly, hdisk.grow hsame, ?_, hfits, ?_, ?_, hpromise, hsettled, ?_⟩
  · intro e he
    rcases he.of_moved hm with hk | he
    · exact hsame.known (heffect e hk).1
    · exact hsame.known (h.known e he)
  · intro objects hobjects
    obtain ⟨hbound, hshows⟩ := h.memory objects hobjects
    refine ⟨hbound, hsame.sound hshows.sound, ?_⟩
    intro e he
    rcases he.of_moved hm with hk | he
    · exact hsame.holds ((heffect e hk).2 objects hobjects)
    · exact hsame.holds (hshows.holds e he)
  · intro j k hj hway hnot
    obtain ⟨X, hX, hshows⟩ := hflight j k hj hway hnot
    refine ⟨X, ?_, hshows.grow hsame⟩
    cases k with
    | making | replacing => exact hX
    | _ => cases hX
  · intro j effect result write objects hj
    rcases hm.cases hj with ⟨_, hk⟩ | ⟨_, hj⟩
    · exact hheld effect result write objects hk.symm
    · exact h.held j effect result write objects hj
  · intro j j' k₁ k₂ hj hj' hway hway'
    rcases hm.cases hj with ⟨rfl, rfl⟩ | ⟨hne, hj⟩ <;> rcases hm.cases hj' with ⟨rfl, rfl⟩ | ⟨hne', hj'⟩
    · rfl
    · rw [hone hway j' k₂ hne' hj'] at hway'
      cases hway'
    · rw [hone hway' j k₁ hne hj] at hway
      cases hway
    · exact h.one j j' k₁ k₂ hj hj' hway hway'
  · intro j hj
    rcases hm.cases hj with ⟨_, hk⟩ | ⟨_, hj⟩
    · exact hrejected hk.symm
    · exact h.none_rejected j hj

namespace Kept

theorem alone (h : Kept codec W) (hi : W.tasks[i]? = some k) (hway : k.underWay = true) {j : Nat}
    (hne : j ≠ i) (hj : W.tasks[j]? = some k') : k'.underWay = false := by
  by_contra hnot
  exact hne (h.one j i k' k hj hi (by simpa using hnot) hway)

theorem shift (h : Kept codec W) (hm : World.Moved W.tasks tasks' i k')
    {writes : List Promise} {writePromise : Option Nat} (hk' : k'.durable = none)
    (heffect : ∀ e, k'.effect = some e → e.Known W.shared ∧
      ∀ objects, W.shared.cache = some objects → e.Holds W.shared (W.shared.contents objects))
    (hearly : W.shared.cache = none → k'.Early W.shared.files)
    (hflight : k'.underWay = true → ∃ X, k'.Writes codec W.shared X ∧
        Shows W.shared X fun e ↦ k'.effect = some e ∨ Landed W.tasks e)
    (hfits : ∀ effect result write text r,
      k' = .replacing effect result write text r → W.shared.files.Fits .tmp text r)
    (hheld : ∀ effect result write objects, k' = .making effect result write objects →
      ∀ o ∈ objects, o < W.shared.nextObject)
    (hone : k'.underWay = true → ∀ (j : Nat) k, j ≠ i → W.tasks[j]? = some k → k.underWay = false)
    (hpromise : writePromise = none → ∀ (j : Nat) k, tasks'[j]? = some k → k.underWay = false)
    (hsettled : ∀ write : Nat, writes[write]? ≠ some .rejected) (hrejected : k' ≠ .rejected) :
    Kept codec ⟨{ W.shared with writes, writePromise }, tasks'⟩ := by
  have hlanded : ∀ e, Landed tasks' e → Landed W.tasks e := by
    intro e he
    rcases he.of_moved hm with hk | he
    · rw [hk'] at hk
      cases hk
    · exact he
  have hle : ∀ k : SessionTask, ∀ e, k.effect = some e ∨ Landed tasks' e →
      k.effect = some e ∨ Landed W.tasks e := fun k e he ↦ he.imp id (hlanded e)
  refine h.move hm heffect ?_ (h.disk.mono hlanded) ?_ ?_ hheld hone hpromise hsettled hrejected
  · intro hnone j k hj
    rcases hm.cases hj with ⟨_, rfl⟩ | ⟨_, hj⟩
    · exact hearly hnone
    · exact h.early hnone j k hj
  · intro j k hj hway hnot
    rcases hm.cases hj with ⟨_, rfl⟩ | ⟨_, hj⟩
    · obtain ⟨X, hX, hshows⟩ := hflight hway
      exact ⟨X, hX, hshows.mono (hle _)⟩
    · obtain ⟨X, hX, hshows⟩ := h.flight j k hj hway hnot
      exact ⟨X, hX, hshows.mono (hle _)⟩
  · intro j effect result write text r hj
    rcases hm.cases hj with ⟨_, hk⟩ | ⟨_, hj⟩
    · exact hfits effect result write text r hk.symm
    · exact h.fits j effect result write text r hj

theorem wait (h : Kept codec W) (hm : World.Moved W.tasks tasks' i (.waiting e result write))
    (hcache : W.shared.cache = some objects) (hpromise : W.shared.writePromise = some write)
    (hknown : e.Known W.shared) (hholds : e.Holds W.shared (W.shared.contents objects)) :
    Kept codec ⟨W.shared, tasks'⟩ := by
  refine h.shift hm rfl ?_ ?_ ?_ ?_ ?_ ?_ ?_ h.settled (by simp)
  · intro e' he'
    cases he'
    refine ⟨hknown, ?_⟩
    intro objects' hobjects
    cases hcache.symm.trans hobjects
    exact hholds
  · intro hnone
    cases hcache.symm.trans hnone
  · intro hway
    cases hway
  · intro effect result write text r hk
    cases hk
  · intro effect result write objects hk
    cases hk
  · intro hway
    cases hway
  · intro hnone
    cases hpromise.symm.trans hnone

theorem start (h : Kept codec W)
    (hm : World.Moved W.tasks tasks' i (.making e result W.shared.writes.length objects))
    (hcache : W.shared.cache = some objects) (hknown : e.Known W.shared)
    (hholds : e.Holds W.shared (W.shared.contents objects))
    (halone : ∀ (j : Nat) k, j ≠ i → W.tasks[j]? = some k → k.underWay = false) :
    Kept codec ⟨(W.shared.startWrite objects e result).1, tasks'⟩ := by
  obtain ⟨hbound, hshows⟩ := h.memory objects hcache
  refine h.shift hm rfl ?_ ?_ ?_ ?_ ?_ (fun _ ↦ halone) ?_ ?_ (by simp)
  · intro e' he'
    cases he'
    refine ⟨hknown, ?_⟩
    intro objects' hobjects
    cases hcache.symm.trans hobjects
    exact hholds
  · intro hnone
    cases hcache.symm.trans hnone
  · intro _
    refine ⟨_, rfl, hshows.sound, ?_⟩
    rintro e' (he' | he')
    · cases he'
      exact hholds
    · exact hshows.holds e' he'.ran
  · intro effect result write text r hk
    cases hk
  · intro effect result write objects' hk
    cases hk
    exact hbound
  · intro hnone
    cases hnone
  · intro write hw
    rcases World.task_append hw with hw | ⟨_, hw⟩
    · exact h.settled write hw
    · cases hw

theorem resolve (h : Kept codec W) (hm : World.Moved W.tasks tasks' i (.resolved e result))
    (hknown : e.Known W.shared) (hcache : W.shared.cache = some objects)
    (hholds : e.Holds W.shared (W.shared.contents objects))
    (hdisk : e.Holds W.shared (loadFile codec W.shared.files))
    (hflight : ∀ (j : Nat) k X, W.tasks[j]? = some k → k.Writes codec W.shared X →
      e.Holds W.shared X) : Kept codec ⟨W.shared, tasks'⟩ := by
  refine h.move hm ?_ ?_ ?_ ?_ ?_ ?_ ?_ ?_ h.settled (by simp)
  · intro e' he'
    cases he'
    refine ⟨hknown, ?_⟩
    intro objects' hobjects
    cases hcache.symm.trans hobjects
    exact hholds
  · intro hnone
    cases hcache.symm.trans hnone
  · refine ⟨h.disk.sound, ?_⟩
    intro e' he'
    rcases he'.of_moved hm with hk | he'
    · cases hk
      exact hdisk
    · exact h.disk.holds e' he'
  · intro j k hj hway hnot
    rcases hm.cases hj with ⟨_, rfl⟩ | ⟨_, hj⟩
    · cases hway
    obtain ⟨X, hX, hshows⟩ := h.flight j k hj hway hnot
    refine ⟨X, hX, hshows.sound, ?_⟩
    rintro e' (he' | he')
    · exact hshows.holds e' (.inl he')
    rcases he'.of_moved hm with hk | he'
    · cases hk
      exact hflight j k X hj hX
    · exact hshows.holds e' (.inr he')
  · intro j effect result' write text r hj
    rcases hm.cases hj with ⟨_, hk⟩ | ⟨_, hj⟩
    · cases hk
    · exact h.fits j effect result' write text r hj
  · intro effect result' write objects' hk
    cases hk
  · intro hway
    cases hway
  · intro hnone j k hj
    rcases hm.cases hj with ⟨_, rfl⟩ | ⟨_, hj⟩
    · rfl
    · exact h.promise hnone j k hj

theorem flush (h : Kept codec W) (hm : World.Moved W.tasks tasks' i (W.shared.flush e result).2)
    (hcache : W.shared.cache = some objects) (hknown : e.Known W.shared)
    (hholds : e.Holds W.shared (W.shared.contents objects)) :
    Kept codec ⟨(W.shared.flush e result).1, tasks'⟩ := by
  rw [SessionStore.flush, hcache] at hm ⊢
  cases hpromise : W.shared.writePromise with
  | some write =>
    rw [hpromise] at hm
    exact h.wait hm hcache hpromise hknown hholds
  | none =>
    rw [hpromise] at hm
    exact h.start hm hcache hknown hholds fun j k _ hj ↦ h.promise hpromise j k hj

end Kept

/-! ## What the calls do to the sessions -/

section Calls

variable {sess : SessionRecord} {sid : String} {o : Nat}
variable (hX : Sound s (s.contents objects)) (hbound : ∀ o ∈ objects, o < s.nextObject)

theorem eq_of_sid (hX : Sound s (s.contents objects)) {o o' : Nat} (ho : o ∈ objects)
    (ho' : o' ∈ objects) (heq : (s.objects o).sid = (s.objects o').sid) : o = o' := by
  have hsids := hX.distinct
  rw [SessionStore.contents, List.map_map] at hsids
  exact List.inj_on_of_nodup_map hsids ho ho' heq

theorem grows_record (sess : SessionRecord) : Grows s (s.record sess) where
  issued _ h := h
  removed _ h := h
  history sid := by
    by_cases hsid : sid = sess.sid
    · rw [hsid]
      exact ⟨[sess], Function.update_self ..⟩
    · exact ⟨[], (Function.update_of_ne hsid ..).trans (List.append_nil _).symm⟩

theorem place_record (sess : SessionRecord) :
    ((s.record sess).history sess.sid)[(s.history sess.sid).length]? = some sess := by
  have hhistory : (s.record sess).history sess.sid = s.history sess.sid ++ [sess] :=
    Function.update_self ..
  rw [hhistory, List.getElem?_append_right (Nat.le_refl _), Nat.sub_self]
  rfl

include hX hbound

theorem change_push (hfresh : sess.sid ∉ s.issued) :
    Change s (s.push objects sess) objects (objects ++ newObjects s.nextObject [sess])
      { creates := some sess.sid, sets := s.sets sess.sid } := by
  have hrecord := grows_record (s := s) sess
  have hgrows : Grows s (s.push objects sess) :=
    ⟨fun sid h ↦ List.mem_cons_of_mem _ h, hrecord.removed, hrecord.history⟩
  have hcontents : (s.push objects sess).contents (objects ++ newObjects s.nextObject [sess]) =
      s.contents objects ++ [sess] := by
    rw [SessionStore.contents, List.map_append]
    exact congrArg₂ _ (map_filled_old hbound) map_filled
  have hne : ∀ r ∈ s.contents objects, r.sid ≠ sess.sid := by
    intro r hr heq
    exact hfresh (heq ▸ hX.issued r hr)
  refine ⟨⟨hgrows, fun o ho ↦ .inl (if_pos ho)⟩, rfl, rfl, rfl, rfl, Nat.le_add_right _ _, ?_, ?_,
    ?_, ?_, ?_⟩
  · intro o ho
    rcases List.mem_append.mp ho with ho | ho
    · exact Nat.lt_of_lt_of_le (hbound o ho) (Nat.le_add_right _ _)
    · exact lt_of_mem_newObjects ho
  · rw [hcontents]
    refine ⟨?_, ?_⟩
    · rw [List.map_append, List.map_singleton, List.nodup_append]
      refine ⟨hX.distinct, List.nodup_singleton _, ?_⟩
      intro x hx y hy
      obtain ⟨r, hr, rfl⟩ := List.mem_map.mp hx
      rw [List.mem_singleton.mp hy]
      exact hne r hr
    · intro r hr
      rcases List.mem_append.mp hr with hr | hr
      · exact List.mem_cons_of_mem _ (hX.issued r hr)
      · rw [List.mem_singleton.mp hr]
        exact List.mem_cons_self
  · refine ⟨?_, ?_⟩
    · intro sid hsid
      cases hsid
    intro sid n hn
    cases hn
    refine ⟨List.mem_cons_self, ?_⟩
    exact (List.getElem?_eq_some_iff.mp (place_record (s := s) sess)).1
  · rw [hcontents]
    refine ⟨?_, ?_, ?_⟩
    · intro sid hsid
      cases hsid
    · intro sid hsid
      cases hsid
      exact .inr ⟨sess, List.mem_append_right _ (List.mem_singleton_self _), rfl⟩
    · intro sid n hn r hr heq
      cases hn
      rcases List.mem_append.mp hr with hr | hr
      · exact absurd heq (hne r hr)
      · rw [List.mem_singleton.mp hr]
        exact ⟨_, Nat.le_refl _, place_record sess⟩
  · intro e' hknown he'
    have hholds := hgrows.holds he'
    rw [hcontents]
    refine ⟨?_, ?_, ?_⟩
    · intro sid hsid r hr
      rcases List.mem_append.mp hr with hr | hr
      · exact hholds.revokes sid hsid r hr
      rw [List.mem_singleton.mp hr]
      rintro rfl
      exact hfresh (hknown.revokes _ hsid)
    · intro sid hsid
      refine (hholds.creates sid hsid).imp id ?_
      rintro ⟨r, hr, heq⟩
      exact ⟨r, List.mem_append_left _ hr, heq⟩
    · intro sid n hn r hr heq
      rcases List.mem_append.mp hr with hr | hr
      · exact hholds.sets sid n hn r hr heq
      rw [List.mem_singleton.mp hr] at heq
      subst heq
      exact absurd (hknown.sets _ n hn).1 hfresh

theorem change_drop (hsub : objects'.Sublist objects) (hgrows : Grows s s')
    (hfiles : s'.files = s.files) (hwrites : s'.writes = s.writes)
    (hpromise : s'.writePromise = s.writePromise) (hcache : s'.cache = some objects')
    (hobjects : s'.objects = s.objects) (hnext : s'.nextObject = s.nextObject)
    (hdropped : ∀ o ∈ objects, o ∉ objects' → (s.objects o).sid ∈ s'.removed)
    (hknown : e.Known s') (hown : e.Holds s' (s.contents objects')) :
    Change s s' objects objects' e := by
  have hcontents : ∀ refs, s'.contents refs = s.contents refs := by
    intro refs
    rw [SessionStore.contents, SessionStore.contents, hobjects]
  have hsubset : ∀ r ∈ s.contents objects', r ∈ s.contents objects :=
    fun r hr ↦ (hsub.map s.objects).subset hr
  refine ⟨⟨hgrows, fun o _ ↦ .inl (congrFun hobjects o)⟩, hfiles, hwrites, hpromise, hcache,
    Nat.le_of_eq hnext.symm, ?_, ?_, hknown, ?_, ?_⟩
  · intro o ho
    rw [hnext]
    exact hbound o (hsub.subset ho)
  · rw [hcontents]
    refine ⟨?_, fun r hr ↦ hgrows.issued _ (hX.issued r (hsubset r hr))⟩
    exact ((hsub.map s.objects).map SessionRecord.sid).nodup hX.distinct
  · rw [hcontents]
    exact hown
  · intro e' _ he'
    have hholds := hgrows.holds he'
    rw [hcontents]
    refine ⟨fun sid hsid r hr ↦ hholds.revokes sid hsid r (hsubset r hr), ?_,
      fun sid n hn r hr ↦ hholds.sets sid n hn r (hsubset r hr)⟩
    intro sid hsid
    rcases hholds.creates sid hsid with hremoved | ⟨r, hr, rfl⟩
    · exact .inl hremoved
    obtain ⟨o, ho, rfl⟩ := List.mem_map.mp hr
    by_cases hkept : o ∈ objects'
    · exact .inr ⟨_, List.mem_map_of_mem hkept, rfl⟩
    · exact .inl (hdropped o ho hkept)

theorem change_splice (o : Nat) : Change s (s.splice objects o) objects (objects.erase o) {} := by
  refine change_drop hX hbound List.erase_sublist ⟨fun _ h ↦ h, fun _ h ↦ List.mem_cons_of_mem _ h,
    fun _ ↦ ⟨[], (List.append_nil _).symm⟩⟩ rfl rfl rfl rfl rfl rfl ?_ ⟨by simp, by simp⟩
    ⟨by simp, by simp, by simp⟩
  intro o' ho' hnot
  have heq : o' = o := by
    by_contra hne
    exact hnot ((List.mem_erase_of_ne hne).mpr ho')
  rw [heq]
  exact List.mem_cons_self

theorem change_revoke (sid : String) :
    Change s (s.revoke objects sid) objects (s.without objects sid) { revokes := [sid] } := by
  refine change_drop hX hbound List.filter_sublist ⟨fun _ h ↦ List.mem_cons_of_mem _ h,
    fun _ h ↦ List.mem_cons_of_mem _ h, fun _ ↦ ⟨[], (List.append_nil _).symm⟩⟩ rfl rfl rfl rfl rfl
    rfl ?_ ⟨?_, by simp⟩ ⟨?_, by simp, by simp⟩
  · intro o ho hnot
    have heq : (s.objects o).sid = sid := by
      by_contra hne
      exact hnot (List.mem_filter.mpr ⟨ho, decide_eq_true hne⟩)
    rw [heq]
    exact List.mem_cons_self
  · intro sid' hsid'
    rw [List.mem_singleton.mp hsid']
    exact List.mem_cons_self
  · intro sid' hsid' r hr
    obtain ⟨o, ho, rfl⟩ := List.mem_map.mp hr
    rw [List.mem_singleton.mp hsid']
    exact of_decide_eq_true (List.mem_filter.mp ho).2

theorem change_revokeAll : Change s s.revokeAll objects [] { revokes := s.issued } := by
  refine change_drop hX hbound (List.nil_sublist _) ⟨fun _ h ↦ h,
    fun _ h ↦ List.mem_append_right _ h, fun _ ↦ ⟨[], (List.append_nil _).symm⟩⟩ rfl rfl rfl rfl rfl
    rfl ?_ ⟨fun _ h ↦ h, by simp⟩ ⟨?_, by simp, by simp⟩
  · intro o ho _
    exact List.mem_append_left _ (hX.issued _ (List.mem_map_of_mem ho))
  · intro sid _ r hr
    cases hr

theorem change_touch (ho : o ∈ objects) (hcache : s.cache = some objects)
    (hsid : sess.sid = (s.objects o).sid) :
    Change s (s.touch o sess) objects objects { sets := s.sets sess.sid } := by
  have hgrows : Grows s (s.touch o sess) :=
    ⟨fun _ h ↦ h, fun _ h ↦ h, (grows_record (s := s) sess).history⟩
  have hrewrites : Rewrites s (s.touch o sess) := by
    refine ⟨hgrows, ?_⟩
    intro o' _
    by_cases heq : o' = o
    · subst heq
      have hnow : (s.touch o' sess).objects o' = sess := Function.update_self ..
      rw [hnow, ← hsid]
      exact .inr ⟨rfl, _, Nat.le_refl _, place_record sess⟩
    · exact .inl (Function.update_of_ne heq ..)
  have hnow : ∀ r ∈ (s.touch o sess).contents objects, r.sid = sess.sid → r = sess := by
    intro r hr heq
    obtain ⟨o', ho', rfl⟩ := List.mem_map.mp hr
    by_cases hne : o' = o
    · subst hne
      exact Function.update_self ..
    have hold : (s.touch o sess).objects o' = s.objects o' := Function.update_of_ne hne ..
    rw [hold] at heq
    exact absurd (eq_of_sid hX ho' ho (heq.trans hsid)) hne
  refine ⟨hrewrites, rfl, rfl, rfl, hcache, Nat.le_refl _, hbound, hrewrites.sound hbound hX, ?_, ?_,
    fun e' hknown he' ↦ hrewrites.holds hbound hknown he'⟩
  · refine ⟨by simp, ?_⟩
    intro sid n hn
    cases hn
    refine ⟨hsid ▸ hX.issued _ (List.mem_map_of_mem ho), ?_⟩
    exact (List.getElem?_eq_some_iff.mp (place_record (s := s) sess)).1
  · refine ⟨by simp, by simp, ?_⟩
    intro sid n hn r hr heq
    cases hn
    rw [hnow r hr heq]
    exact ⟨_, Nat.le_refl _, place_record sess⟩

end Calls

namespace Kept

theorem nothing (h : Kept codec W) (hm : World.Moved W.tasks tasks' i (.resolved {} result))
    (hcache : W.shared.cache = some objects) : Kept codec ⟨W.shared, tasks'⟩ := by
  have hholds : ∀ X, Effect.Holds W.shared X {} := fun X ↦ ⟨by simp, by simp, by simp⟩
  exact h.resolve hm ⟨by simp, by simp⟩ hcache (hholds _) (hholds _) fun _ _ X _ _ ↦ hholds X

/-- **What a call does after `loadCache`.** -/
theorem body (h : Kept codec W) (hcache : W.shared.cache = some objects) {call : SessionCall}
    {now : Int} (hmay : MayRun codec W (W.shared.contents objects) call)
    (hm : World.Moved W.tasks tasks' i (sessionBody codec W.shared objects now call).2) :
    Kept codec ⟨(sessionBody codec W.shared objects now call).1, tasks'⟩ := by
  obtain ⟨hbound, hshows⟩ := h.memory objects hcache
  have hX := hshows.sound
  cases call with
  | createSession sid userAgent ip ttlMs =>
    have hfresh : (newSession codec now sid userAgent ip ttlMs).sid ∉ W.shared.issued := hmay
    have hc := change_push hX hbound hfresh
    exact (h.change hc hcache).flush hm hc.cache hc.known hc.own
  | validateAndTouch sid ttlMs =>
    simp only [sessionBody] at hm ⊢
    cases hfind : objects.find? fun o ↦ (W.shared.objects o).sid = sid with
    | none =>
      rw [hfind] at hm
      exact h.nothing hm hcache
    | some o =>
      have ho : o ∈ objects := List.mem_of_find?_eq_some hfind
      have hsid : (W.shared.objects o).sid = sid := by simpa using List.find?_some hfind
      simp only [hfind] at hm ⊢
      split_ifs at hm ⊢ with hexpired hthrottled
      · have hc := change_splice hX hbound o
        exact (h.change hc hcache).flush hm hc.cache hc.known hc.own
      · exact h.nothing hm hcache
      · have hc := change_touch hX hbound ho hcache
          (rfl : (touched codec now ttlMs (W.shared.objects o)).sid = (W.shared.objects o).sid)
        have heq : (touched codec now ttlMs (W.shared.objects o)).sid = sid := hsid
        rw [heq] at hc
        exact (h.change hc hcache).flush hm hc.cache hc.known hc.own
  | revokeSession sid =>
    have hc := change_revoke hX hbound sid
    simp only [sessionBody] at hm ⊢
    split_ifs at hm ⊢ with hfound
    · exact (h.change hc hcache).flush hm hc.cache hc.known hc.own
    have hno : ∀ sess ∈ W.shared.contents objects, sess.sid ≠ sid := by
      intro sess hsess
      obtain ⟨o, ho, rfl⟩ := List.mem_map.mp hsess
      have hall := List.length_filter_eq_length_iff.mp (not_not.mp hfound) o ho
      exact of_decide_eq_true hall
    obtain ⟨hfile, hflight⟩ := hmay hno
    have hholds : ∀ X : List SessionRecord, (∀ sess ∈ X, ¬ sess.sid = sid) →
        Effect.Holds (W.shared.revoke objects sid) X { revokes := [sid] } := by
      intro X hX
      refine ⟨?_, by simp, by simp⟩
      intro sid' hsid'
      rw [List.mem_singleton.mp hsid']
      exact hX
    refine (h.change hc hcache).resolve hm hc.known hc.cache hc.own (hholds _ hfile) ?_
    intro j k X hj hw
    refine hholds X (hflight j k X hj ?_)
    cases k with
    | making | replacing => exact hw
    | _ => cases hw
  | revokeAllSessions =>
    simp only [sessionBody] at hm ⊢
    split_ifs at hm ⊢ with hempty
    · obtain ⟨hfile, hflight⟩ := hmay (by rw [hempty]; rfl)
      have hholds : ∀ X : List SessionRecord, (∀ sess ∈ X, ¬ True) →
          Effect.Holds W.shared X { revokes := W.shared.issued } :=
        fun X hX ↦ ⟨fun _ _ sess hsess ↦ absurd trivial (hX sess hsess), by simp, by simp⟩
      refine h.resolve hm ⟨fun _ hsid ↦ hsid, by simp⟩ hcache (hholds _ ?_) (hholds _ hfile)
        fun j k X hj hw ↦ hholds X (hflight j k X hj hw)
      intro sess hsess
      rw [hempty] at hsess
      cases hsess
    · have hc := change_revokeAll hX hbound
      exact (h.change hc hcache).flush hm hc.cache hc.known hc.own

theorem landed_of_ran (h : Kept codec W) (hnone : W.shared.cache = none) (he : Ran W.tasks e) :
    Landed W.tasks e := by
  obtain ⟨j, k, hj, hk⟩ := he
  have hearly := h.early hnone j k hj
  cases k with
  | resolved => exact ⟨j, _, hj, hk⟩
  | opening | reading | lost | rejected => cases hk
  | waiting | making | replacing | chmodding => cases hearly

theorem fill (h : Kept codec W)
    (hsome : ∀ objects, W.shared.cache = some objects → W.shared.contents objects = X)
    (hnone : W.shared.cache = none → loadFile codec W.shared.files = X) :
    Kept codec ⟨W.shared.fill X, W.tasks⟩ := by
  have hsame : Grows W.shared (W.shared.fill X) :=
    ⟨fun _ h ↦ h, fun _ h ↦ h, fun _ ↦ ⟨[], (List.append_nil _).symm⟩⟩
  have hshows : Shows W.shared X (Ran W.tasks) := by
    cases hcache : W.shared.cache with
    | some objects =>
      rw [← hsome objects hcache]
      exact (h.memory objects hcache).2
    | none =>
      rw [← hnone hcache]
      exact h.disk.mono fun e he ↦ h.landed_of_ran hcache he
  refine ⟨fun e he ↦ hsame.known (h.known e he), ?_, ?_, h.disk.grow hsame, ?_, h.fits, ?_, h.one,
    h.promise, h.settled, h.none_rejected⟩
  · intro objects hobjects
    cases hobjects
    refine ⟨fun o ho ↦ lt_of_mem_newObjects ho, ?_⟩
    have hcontents : (W.shared.fill X).contents (newObjects W.shared.nextObject X) = X := map_filled
    show Shows _ ((W.shared.fill X).contents (newObjects W.shared.nextObject X)) _
    rw [hcontents]
    exact hshows.grow hsame
  · intro hnot
    cases hnot
  · intro j k hj hway hnot
    obtain ⟨Y, hY, hshowsY⟩ := h.flight j k hj hway hnot
    refine ⟨Y, ?_, hshowsY.grow hsame⟩
    cases k with
    | making effect result write refs =>
      exact (map_filled_old (h.held j effect result write refs hj)).trans hY
    | replacing => exact hY
    | _ => cases hY
  · intro j effect result write refs hj o ho
    exact Nat.lt_of_lt_of_le (h.held j effect result write refs hj o ho) (Nat.le_add_right _ _)

theorem make (h : Kept codec W) (hi : W.tasks[i]? = some (.making e result write objects)) :
    Kept codec ⟨W.shared, W.tasks.set i
      (.replacing e result write (codec.stringify (W.shared.contents objects)) .opening)⟩ := by
  have hm := World.Moved.set hi
    (.replacing e result write (codec.stringify (W.shared.contents objects)) .opening)
  have hran : Ran W.tasks e := ⟨i, _, hi, rfl⟩
  refine h.shift hm rfl ?_ ?_ ?_ ?_ ?_ ?_ ?_ h.settled (by simp)
  · intro e' he'
    cases he'
    exact ⟨h.known e hran, fun objects' hobjects ↦ (h.memory objects' hobjects).2.holds e hran⟩
  · intro hnone
    cases h.early hnone i _ hi
  · intro _
    obtain ⟨Y, hY, hshows⟩ := h.flight i _ hi rfl rfl
    exact ⟨Y, congrArg codec.stringify hY, hshows⟩
  · intro effect result' write' text r hk
    cases hk
    trivial
  · intro effect result' write' objects' hk
    cases hk
  · intro _ j k hne hj
    exact h.alone hi rfl hne hj
  · intro hnone j k hj
    have hnot := h.promise hnone i _ hi
    cases hnot

theorem replace (h : Kept codec W) {r : Files.Replacing} {m : Nat}
    {files : Files SessionsPath UInt8} {p : Files.Progress}
    (hi : W.tasks[i]? = some (.replacing e result write text r))
    (hstep : Files.replaceStep .tmp .file text W.shared.files r (.done m) = some (files, p)) :
    Kept codec ⟨({ W.shared with files } : SessionStore).settleFailed write p,
      W.tasks.set i (.after e result write text p)⟩ := by
  have hran : Ran W.tasks e := ⟨i, _, hi, rfl⟩
  have heffect : e.Known W.shared ∧ ∀ objects, W.shared.cache = some objects →
      e.Holds W.shared (W.shared.contents objects) :=
    ⟨h.known e hran, fun objects hobjects ↦ (h.memory objects hobjects).2.holds e hran⟩
  have hearly : W.shared.cache ≠ none := by
    intro hnone
    cases h.early hnone i _ hi
  have hpromise : W.shared.writePromise ≠ none := by
    intro hnone
    cases h.promise hnone i _ hi
  obtain ⟨Y, hY, hshows⟩ := h.flight i _ hi rfl rfl
  have hne : SessionsPath.file ≠ SessionsPath.tmp := by simp
  rcases Files.replaceStep_done hne (h.fits i e result write text r hi) hstep with
    ⟨r', rfl, _, hfits, hread⟩ | ⟨rfl, _, hread⟩
  · have hm := World.Moved.set hi (.replacing e result write text r')
    have hlanded : ∀ e', Landed (W.tasks.set i (.replacing e result write text r')) e' →
        Landed W.tasks e' := by
      intro e' he'
      rcases he'.of_moved hm with hk | he'
      · cases hk
      · exact he'
    refine h.move hm ?_ (fun hnone ↦ absurd hnone hearly) ?_ ?_ ?_ ?_ ?_
      (fun hnone ↦ absurd hnone hpromise) h.settled (by simp)
    · intro e' he'
      cases he'
      exact heffect
    · have hload : loadFile codec files = loadFile codec W.shared.files := by
        rw [loadFile, loadFile, hread]
      rw [hload]
      exact h.disk.mono hlanded
    · intro j k hj hway hnot
      rcases hm.cases hj with ⟨_, rfl⟩ | ⟨hne, hj⟩
      · exact ⟨Y, hY, hshows.mono fun e' he' ↦ he'.imp id (hlanded e')⟩
      · rw [h.alone hi rfl hne hj] at hway
        cases hway
    · intro j effect result' write' text' r₁ hj
      rcases hm.cases hj with ⟨_, hk⟩ | ⟨hne, hj⟩
      · cases hk
        exact hfits
      · cases h.alone hi rfl hne hj
    · intro effect result' write' objects' hk
      cases hk
    · intro _ j k hne hj
      exact h.alone hi rfl hne hj
  · have hm := World.Moved.set hi (.chmodding e result write)
    have htext : text = codec.stringify Y := hY
    have hload : loadFile codec files = Y := by
      rw [loadFile, hread]
      show loadText codec text = Y
      rw [loadText, htext, codec.parse_stringify]
      rfl
    refine h.move hm ?_ (fun hnone ↦ absurd hnone hearly) ?_ ?_ ?_ ?_ ?_
      (fun hnone ↦ absurd hnone hpromise) h.settled (by simp)
    · intro e' he'
      cases he'
      exact heffect
    · rw [hload]
      refine hshows.mono ?_
      intro e' he'
      rcases he'.of_moved hm with hk | he'
      · exact .inl hk
      · exact .inr he'
    · intro j k hj hway hnot
      rcases hm.cases hj with ⟨_, rfl⟩ | ⟨hne, hj⟩
      · cases hnot
      · rw [h.alone hi rfl hne hj] at hway
        cases hway
    · intro j effect result' write' text' r₁ hj
      rcases hm.cases hj with ⟨_, hk⟩ | ⟨hne, hj⟩
      · cases hk
      · cases h.alone hi rfl hne hj
    · intro effect result' write' objects' hk
      cases hk
    · intro _ j k hne hj
      exact h.alone hi rfl hne hj

theorem chmod (h : Kept codec W) (hi : W.tasks[i]? = some (.chmodding e result write)) :
    Kept codec ⟨{ W.shared.settle write .fulfilled with writePromise := none },
      W.tasks.set i (.resolved e result)⟩ := by
  have hm := World.Moved.set hi (.resolved e result)
  have hran : Ran W.tasks e := ⟨i, _, hi, rfl⟩
  have hlanded : ∀ e', Landed (W.tasks.set i (.resolved e result)) e' → Landed W.tasks e' := by
    intro e' he'
    rcases he'.of_moved hm with hk | he'
    · exact ⟨i, _, hi, hk⟩
    · exact he'
  have hquiet : ∀ (j : Nat) k, (W.tasks.set i (.resolved e result))[j]? = some k →
      k.underWay = false := by
    intro j k hj
    rcases hm.cases hj with ⟨_, rfl⟩ | ⟨hne, hj⟩
    · rfl
    · exact h.alone hi rfl hne hj
  refine h.move hm ?_ ?_ (h.disk.mono hlanded) ?_ ?_ ?_ ?_ (fun _ ↦ hquiet) ?_ (by simp)
  · intro e' he'
    cases he'
    exact ⟨h.known e hran, fun objects hobjects ↦ (h.memory objects hobjects).2.holds e hran⟩
  · intro hnone
    cases h.early hnone i _ hi
  · intro j k hj hway _
    rw [hquiet j k hj] at hway
    cases hway
  · intro j effect result' write' text' r hj
    cases hquiet j _ hj
  · intro effect result' write' objects' hk
    cases hk
  · intro hway
    cases hway
  · intro write' hw
    rcases World.task_set hw with ⟨_, hp⟩ | ⟨_, hw⟩
    · cases hp
    · exact h.settled write' hw

theorem crash (h : Kept codec W) :
    Kept codec ⟨{ W.shared with cache := none, writePromise := none },
      W.tasks.map SessionTask.lose⟩ := by
  have hsame : Grows W.shared { W.shared with cache := none, writePromise := none } :=
    ⟨fun _ h ↦ h, fun _ h ↦ h, fun _ ↦ ⟨[], (List.append_nil _).symm⟩⟩
  have hlost : ∀ (j : Nat) k, (W.tasks.map SessionTask.lose)[j]? = some k →
      ∃ k₀, W.tasks[j]? = some k₀ ∧ k = k₀.lose := by
    intro j k hj
    rw [List.getElem?_map] at hj
    obtain ⟨k₀, hk₀, heq⟩ := Option.map_eq_some_iff.mp hj
    exact ⟨k₀, hk₀, heq.symm⟩
  have hway : ∀ k : SessionTask, k.lose.underWay = false := by
    intro k
    cases k <;> rfl
  have heffect : ∀ (k : SessionTask) e, k.lose.effect = some e → k.durable = some e := by
    intro k e he
    cases k with
    | resolved => exact he
    | _ => cases he
  have hdurable : ∀ e, Landed (W.tasks.map SessionTask.lose) e → Landed W.tasks e := by
    rintro e ⟨j, k, hj, hk⟩
    obtain ⟨k₀, hk₀, rfl⟩ := hlost j k hj
    exact ⟨j, k₀, hk₀, heffect k₀ e (SessionTask.effect_of_durable hk)⟩
  refine ⟨?_, ?_, ?_, ?_, ?_, ?_, ?_, ?_, ?_, h.settled, ?_⟩
  · rintro e ⟨j, k, hj, hk⟩
    obtain ⟨k₀, hk₀, rfl⟩ := hlost j k hj
    exact hsame.known (h.known e ⟨j, k₀, hk₀, SessionTask.effect_of_durable (heffect k₀ e hk)⟩)
  · intro objects hobjects
    cases hobjects
  · intro _ j k hj
    obtain ⟨k₀, hk₀, rfl⟩ := hlost j k hj
    cases k₀ with
    | rejected => exact absurd hk₀ (h.none_rejected j)
    | _ => trivial
  · exact (h.disk.mono hdurable).grow hsame
  · intro j k hj hk
    obtain ⟨k₀, hk₀, rfl⟩ := hlost j k hj
    rw [hway] at hk
    cases hk
  · intro j effect result write text r hj
    obtain ⟨k₀, hk₀, hk⟩ := hlost j _ hj
    have hnot := hway k₀
    rw [← hk] at hnot
    cases hnot
  · intro j effect result write objects hj
    obtain ⟨k₀, hk₀, hk⟩ := hlost j _ hj
    have hnot := hway k₀
    rw [← hk] at hnot
    cases hnot
  · intro j j' k k' hj _ hk _
    obtain ⟨k₀, hk₀, rfl⟩ := hlost j k hj
    rw [hway] at hk
    cases hk
  · intro _ j k hj
    obtain ⟨k₀, hk₀, rfl⟩ := hlost j k hj
    exact hway k₀
  · intro j hj
    obtain ⟨k₀, hk₀, hk⟩ := hlost j _ hj
    cases k₀ with
    | rejected => exact h.none_rejected j hk₀
    | _ => cases hk

theorem loaded (h : Kept codec W) (now : Int) {a : Files.Answer} {call : SessionCall}
    (hi : W.tasks[i]? = some k) (hk : Orderly codec W a k)
    (hloads : k.loads codec W.shared = some (call, X)) :
    Kept codec ⟨(loadEnd codec W.shared X now call).1,
      W.tasks.set i (loadEnd codec W.shared X now call).2⟩ := by
  have hnone : W.shared.cache = none → loadFile codec W.shared.files = X := by
    intro hcache
    have hearly := h.early hcache i k hi
    cases k with
    | opening call' =>
      simp only [SessionTask.loads] at hloads
      split_ifs at hloads with hentry
      cases hloads
      rw [loadFile, Files.read, hentry]
      rfl
    | reading call' i₀ =>
      cases hloads
      rw [loadFile, Files.read_of_entry hearly]
    | _ => cases hloads
  have hfill := h.fill (fun objects hobjects ↦ hk.load call X hloads objects hobjects) hnone
  have hcontents : (W.shared.fill X).contents (W.shared.allocate X).2 = X := map_filled
  refine hfill.body rfl ?_ (World.Moved.set hi _)
  show MayRun codec _ ((W.shared.fill X).contents (W.shared.allocate X).2) call
  rw [hcontents]
  have hwrites : ∀ (j : Nat) k sessions, W.tasks[j]? = some k →
      k.Writes codec (W.shared.fill X) sessions → k.Writes codec W.shared sessions := by
    intro j k sessions hj hw
    cases k with
    | making effect result write refs =>
      exact (map_filled_old (h.held j effect result write refs hj)).symm.trans hw
    | replacing => exact hw
    | _ => cases hw
  have hmay := hk.run call X hloads
  cases call with
  | createSession => exact hmay
  | validateAndTouch => trivial
  | revokeSession sid =>
    intro hno
    obtain ⟨hfile, hflight⟩ := hmay hno
    exact ⟨hfile, fun j k sessions hj hw ↦ hflight j k sessions hj (hwrites j k sessions hj hw)⟩
  | revokeAllSessions =>
    intro hempty
    obtain ⟨hfile, hflight⟩ := hmay hempty
    exact ⟨hfile, fun j k sessions hj hw ↦ hflight j k sessions hj (hwrites j k sessions hj hw)⟩

theorem enter (h : Kept codec W) (hm : World.Moved W.tasks tasks' i k') (heffect : k'.effect = none)
    (hway : k'.underWay = false) (hrejected : k' ≠ .rejected) (hearly : k'.Early W.shared.files) :
    Kept codec ⟨W.shared, tasks'⟩ := by
  have hdurable : k'.durable = none := by
    cases hk : k'.durable with
    | none => rfl
    | some e =>
      rw [SessionTask.effect_of_durable hk] at heffect
      cases heffect
  refine h.shift hm hdurable ?_ (fun _ ↦ hearly) ?_ ?_ ?_ ?_ ?_ h.settled hrejected
  · intro e he
    rw [heffect] at he
    cases he
  · intro hyes
    rw [hway] at hyes
    cases hyes
  · rintro effect result write text r rfl
    cases hway
  · rintro effect result write objects rfl
    cases hway
  · intro hyes
    rw [hway] at hyes
    cases hyes
  · intro hnone j k hj
    rcases hm.cases hj with ⟨_, rfl⟩ | ⟨_, hj⟩
    · exact hway
    · exact h.promise hnone j k hj

theorem step (h : Kept codec W) {ev : SessionEvent} (hok : orderlyStep codec W ev)
    (hst : sessionStep codec W ev = some W') : Kept codec W' := by
  cases ev with
  | crash =>
    cases hst
    exact h.crash
  | run e =>
    cases e with
    | call c =>
      obtain ⟨call, now⟩ := c
      cases Prog.step_call hst
      cases hcache : W.shared.cache with
      | none =>
        have hstart : (sessionProg codec).start W.shared W.tasks.length (call, now) =
            (W.shared, .opening call) := by
          simp only [sessionProg, sessionStart, hcache]
        rw [hstart]
        exact h.enter (World.Moved.append _ _) rfl rfl (by simp) trivial
      | some objects =>
        have hstart : (sessionProg codec).start W.shared W.tasks.length (call, now) =
            sessionBody codec W.shared objects now call := by
          simp only [sessionProg, sessionStart, hcache]
        rw [hstart]
        exact h.body hcache (hok objects hcache) (World.Moved.append _ _)
    | resume i r =>
      obtain ⟨a, now⟩ := r
      obtain ⟨k, s', k', hi, hr, rfl⟩ := Prog.step_resume hst
      have hk := hok k hi
      have hsame : (sessionProg codec).resume W.shared i k (a, now) =
          sessionResume codec W.shared i k (a, now) := rfl
      rw [hsame] at hr
      cases a with
      | failed =>
        obtain ⟨effect, result, write, rfl⟩ := hk.succeeds rfl
        cases hr
        exact h.chmod hi
      | done m =>
        cases k with
        | resolved => cases hr
        | rejected => cases hr
        | lost => cases hr
        | opening call =>
          rw [sessionResume] at hr
          split at hr
          · rename_i hentry
            have hend := h.loaded now hi hk (if_pos hentry)
            rw [Option.some.inj hr] at hend
            exact hend
          rename_i i₀ hentry
          cases hr
          exact h.enter (World.Moved.set hi _) rfl rfl (by simp) hentry
        | reading call i₀ =>
          have hend := h.loaded now hi hk rfl
          rw [Option.some.inj hr] at hend
          exact hend
        | waiting effect result write =>
          rw [sessionResume] at hr
          split at hr
          · obtain ⟨objects, hcache, heq⟩ := Option.map_eq_some_iff.mp hr
            cases heq
            have hran : Ran W.tasks effect := ⟨i, _, hi, rfl⟩
            exact h.start (World.Moved.set hi _) hcache (h.known effect hran)
              ((h.memory objects hcache).2.holds effect hran)
              fun j k _ hj ↦ hk.turn effect result write rfl j k hj
          · rename_i hrejected
            exact absurd hrejected (h.settled write)
          · cases hr
        | making effect result write objects =>
          cases hr
          exact h.make hi
        | replacing effect result write text r =>
          obtain ⟨⟨files, p⟩, hreplace, heq⟩ := Option.map_eq_some_iff.mp hr
          cases heq
          exact h.replace hi hreplace
        | chmodding effect result write =>
          cases hr
          exact h.chmod hi

end Kept

/-! ## Every run -/

/-- `validateAndTouch` accepts a session among `X`. -/
def accepted (codec : SessionCodec) (X : List SessionRecord) (now : Int) (sid : String) :
    Option SessionRecord :=
  (X.find? fun sess ↦ sess.sid = sid).filter fun sess ↦ !expired codec now sess

variable (codec) in
/-- What should hold of the sessions that `validateAndTouch` looks into: those in memory, and
those in the file for a process that starts. -/
structure Faithful (W : World SessionStore SessionTask) (X : List SessionRecord) : Prop where
  /-- A session that a call has revoked which has returned is never accepted. -/
  revoked : ∀ (j : Nat) e result, W.tasks[j]? = some (.resolved e result) → ∀ sid ∈ e.revokes,
    ∀ now, accepted codec X now sid = none
  /-- A session that a call has created which has returned is there and accepted until it
  expires, unless it was revoked or has expired. -/
  created : ∀ (j : Nat) e result sid, W.tasks[j]? = some (.resolved e result) →
    e.creates = some sid → sid ∈ W.shared.removed ∨ ∃ sess ∈ X, sess.sid = sid ∧
      ∀ now, expired codec now sess = false → accepted codec X now sid = some sess
  /-- What a call has made of a session which has returned is not undone. -/
  touched : ∀ (j : Nat) e result sid n, W.tasks[j]? = some (.resolved e result) →
    e.sets = some (sid, n) → ∀ sess ∈ X, sess.sid = sid →
      ∃ m, n ≤ m ∧ (W.shared.history sid)[m]? = some sess

theorem faithful_of_shows {p : Effect → Prop} (h : Shows W.shared X p)
    (hp : ∀ (j : Nat) e result, W.tasks[j]? = some (.resolved e result) → p e) :
    Faithful codec W X where
  revoked j e result hj sid hsid now := by
    have hnone : X.find? (fun sess ↦ sess.sid = sid) = none := by
      rw [List.find?_eq_none]
      intro sess hsess
      simpa using (h.holds e (hp j e result hj)).revokes sid hsid sess hsess
    rw [accepted, hnone]
    rfl
  created j e result sid hj hsid := by
    refine ((h.holds e (hp j e result hj)).creates sid hsid).imp id ?_
    rintro ⟨sess, hsess, rfl⟩
    refine ⟨sess, hsess, rfl, ?_⟩
    intro now hnot
    have hfind : X.find? (fun sess' ↦ sess'.sid = sess.sid) = some sess := by
      cases hf : X.find? fun sess' ↦ sess'.sid = sess.sid with
      | none => simpa using List.find?_eq_none.mp hf sess hsess
      | some sess' =>
        have hmem := List.mem_of_find?_eq_some hf
        have heq : sess'.sid = sess.sid := by simpa using List.find?_some hf
        exact congrArg some (List.inj_on_of_nodup_map h.sound.distinct hmem hsess heq)
    rw [accepted, hfind]
    simp [Option.filter, hnot]
  touched j e result sid n hj hn := (h.holds e (hp j e result hj)).sets sid n hn

theorem kept_fresh {files : Files SessionsPath UInt8}
    (h : ((loadFile codec files).map SessionRecord.sid).Nodup) :
    Kept codec (freshStore codec files) := by
  have hno : ∀ e, ¬ Ran [] e := by
    rintro e ⟨j, k, hj, _⟩
    cases hj
  refine ⟨fun e he ↦ absurd he (hno e), ?_, ?_, ⟨⟨h, ?_⟩, ?_⟩, ?_, ?_, ?_, ?_, ?_, ?_, ?_⟩
  · intro objects hobjects
    cases hobjects
  · intro _ j k hj
    cases hj
  · intro sess hsess
    exact List.mem_map_of_mem hsess
  · intro e he
    exact absurd he.ran (hno e)
  · intro j k hj
    cases hj
  · intro j _ _ _ _ _ hj
    cases hj
  · intro j _ _ _ _ hj
    cases hj
  · intro j _ _ _ hj
    cases hj
  · intro _ j _ hj
    cases hj
  · intro write hw
    cases hw
  · intro j hj
    cases hj

/-- **A revoked login stays revoked.**  In every run of orderly steps over any number of
processes, a session that was revoked is accepted neither by this process nor by one that
starts, one that was created is accepted until it is revoked or expires, and no call rejects. -/
theorem stays_revoked {files : Files SessionsPath UInt8}
    (hdistinct : ((loadFile codec files).map SessionRecord.sid).Nodup)
    (h : Reach (sessionStep codec) (orderlyStep codec) (freshStore codec files) W) :
    (∀ objects, W.shared.cache = some objects → Faithful codec W (W.shared.contents objects)) ∧
    Faithful codec W (loadFile codec W.shared.files) ∧
    ∀ j : Nat, W.tasks[j]? ≠ some .rejected := by
  have hK : Kept codec W :=
    h.invariant (kept_fresh hdistinct) fun _ _ _ hI hok hst ↦ hI.step hok hst
  refine ⟨?_, ?_, hK.none_rejected⟩
  · intro objects hcache
    exact faithful_of_shows (hK.memory objects hcache).2 fun j e result hj ↦ ⟨j, _, hj, rfl⟩
  · exact faithful_of_shows hK.disk fun j e result hj ↦ ⟨j, _, hj, rfl⟩

/-! ## A login, and one that is revoked twice -/

/-- A session, as `JSON.stringify` sees it. -/
def SessionRecord.json (sess : SessionRecord) : Json :=
  .object ([("sid", .string sess.sid), ("createdAt", .string sess.createdAt),
    ("lastSeenAt", .string sess.lastSeenAt), ("expiresAt", .string sess.expiresAt)] ++
    given "userAgent" (sess.userAgent.map .string) ++ given "ip" (sess.ip.map .string))

def sessionsFile (sessions : List SessionRecord) : Json :=
  .object [("version", .number "1"), ("sessions", .array (sessions.map SessionRecord.json))]

def recordOf (v : Json) : Option SessionRecord := do
  let r ← properties v
  let sid ← textOf r "sid"
  let createdAt ← textOf r "createdAt"
  let lastSeenAt ← textOf r "lastSeenAt"
  let expiresAt ← textOf r "expiresAt"
  return { sid, createdAt, lastSeenAt, expiresAt, userAgent := textOf r "userAgent"
           ip := textOf r "ip" }

def sessionsOf (v : Json) : Option (List SessionRecord) := do
  let r ← properties v
  match Json.get r "version", Json.get r "sessions" with
  | some (.number "1"), some (.array sessions) => sessions.mapM recordOf
  | _, _ => none

theorem recordOf_json (sess : SessionRecord) : recordOf sess.json = some sess := by
  have hagent : textOf sess.json.recordValue "userAgent" = sess.userAgent := by
    rw [textOf, SessionRecord.json, Json.recordValue, get_append, get_append, get_given,
      get_given_of_ne (by decide)]
    show ((none.or (sess.userAgent.map Json.string)).or none).bind Json.asString = _
    rw [Option.none_or, Option.or_none, asString_map]
  have hip : textOf sess.json.recordValue "ip" = sess.ip := by
    rw [textOf, SessionRecord.json, Json.recordValue, get_append, get_append, get_given,
      get_given_of_ne (by decide)]
    show ((none.or none).or (sess.ip.map Json.string)).bind Json.asString = _
    rw [Option.none_or, Option.none_or, asString_map]
  show some (⟨_, _, _, _, textOf sess.json.recordValue "userAgent",
    textOf sess.json.recordValue "ip"⟩ : SessionRecord) = some sess
  rw [hagent, hip]

theorem sessionsOf_file (sessions : List SessionRecord) :
    sessionsOf (sessionsFile sessions) = some sessions := by
  show (sessions.map SessionRecord.json).mapM recordOf = some sessions
  induction sessions with
  | nil => rfl
  | cons sess rest ih =>
    rw [List.map_cons, List.mapM_cons, recordOf_json, ih]
    rfl

theorem plain_sessionsFile (sessions : List SessionRecord) : (sessionsFile sessions).Plain := by
  refine ⟨Json.plain_number (l := ['1']) rfl (by simp) rfl, ?_, trivial⟩
  refine Json.plainItems_iff.mpr ?_
  intro item hitem
  obtain ⟨sess, _, rfl⟩ := List.mem_map.mp hitem
  refine Json.plainFields_iff.mpr ?_
  simp only [List.forall_mem_append]
  refine ⟨⟨?_, ?_⟩, ?_⟩
  · simp [Json.Plain]
  all_goals
    refine Json.plain_given ?_
    intro v hv
    obtain ⟨text, _, rfl⟩ := Option.map_eq_some_iff.mp hv
    trivial

def days : List (Int × String) :=
  [(0, "1970-01-01T00:00:00.000Z"), (604800000, "1970-01-08T00:00:00.000Z")]

noncomputable def weekCodec : SessionCodec where
  toISOString time := (days.lookup time).getD "Invalid Date"
  getTime text := (days.find? fun day ↦ day.2 = text).map Prod.fst
  stringify sessions := Json.bytes 2 (sessionsFile sessions) ++ [10]
  parse text := (Json.read 2 text.dropLast).bind sessionsOf
  parse_stringify sessions := by
    rw [List.dropLast_concat, Json.read_bytes (plain_sessionsFile sessions)]
    exact sessionsOf_file sessions

def login : SessionRecord where
  sid := "s"
  createdAt := "1970-01-01T00:00:00.000Z"
  lastSeenAt := "1970-01-01T00:00:00.000Z"
  expiresAt := "1970-01-08T00:00:00.000Z"

def loginBytes (sessions : List SessionRecord) : List UInt8 :=
  Json.bytes 2 (sessionsFile sessions) ++ [10]

def loginRun : List SessionEvent :=
  [.run (.call (.createSession "s" none none none, 0)), .run (.resume 0 (.done 0, 0)),
    .run (.resume 0 (.done 0, 0)), .run (.resume 0 (.done 0, 0)),
    .run (.resume 0 (.done (loginBytes [login]).length, 0)), .run (.resume 0 (.done 0, 0)),
    .run (.resume 0 (.done 0, 0))]

theorem orderly_writing {codec : SessionCodec} {m : Nat} (hloads : k.loads codec W.shared = none)
    (hwaiting : ∀ effect result write, k ≠ .waiting effect result write) :
    Orderly codec W (.done m) k where
  load call sessions h := by
    rw [hloads] at h
    cases h
  run call sessions h := by
    rw [hloads] at h
    cases h
  succeeds h := by cases h
  turn effect result write h := absurd h (hwaiting effect result write)

noncomputable def loginUpTo (n : Nat) : World SessionStore SessionTask :=
  after (sessionStep weekCodec) (freshStore weekCodec .empty) (loginRun.take n)

def loginEffect : Effect where
  creates := some "s"
  sets := some ("s", 0)

/-- One login on its own. -/
theorem stays_revoked_login :
    Faithful weekCodec (loginUpTo 7) (loadFile weekCodec (loginUpTo 7).shared.files) := by
  have htasks : (loginUpTo 1).tasks = [.opening (.createSession "s" none none none)] ∧
      (loginUpTo 2).tasks = [.making loginEffect (some login) 0 [0]] ∧
      (loginUpTo 3).tasks = [.replacing loginEffect (some login) 0 (loginBytes [login]) .opening] ∧
      (loginUpTo 4).tasks =
        [.replacing loginEffect (some login) 0 (loginBytes [login]) (.writing 0 0)] ∧
      (loginUpTo 5).tasks = [.replacing loginEffect (some login) 0 (loginBytes [login]) .moving] ∧
      (loginUpTo 6).tasks = [.chmodding loginEffect (some login) 0] := by
    decide +kernel
  obtain ⟨h₁, h₂, h₃, h₄, h₅, h₆⟩ := htasks
  have hempty : loadFile weekCodec .empty = [] := rfl
  have honly : ∀ {W : World SessionStore SessionTask} {k k' : SessionTask}, W.tasks = [k] →
      W.tasks[0]? = some k' → k' = k := by
    intro W k k' h hk'
    rw [h] at hk'
    exact (Option.some.inj hk').symm
  have hrun : Reach (sessionStep weekCodec) (orderlyStep weekCodec)
      (freshStore weekCodec .empty) (loginUpTo 7) := by
    refine Reach.of_after loginRun (by decide +kernel) ?_
    intro n ev hev
    rcases n with _ | _ | _ | _ | _ | _ | _ | n
    · cases hev
      intro objects hobjects
      cases hobjects
    · cases hev
      intro k hk
      cases honly h₁ hk
      refine ⟨?_, ?_, by simp, by simp⟩
      · intro call sessions _ objects hobjects
        cases hobjects
      intro call sessions hloads
      cases hloads
      show "s" ∉ (loadFile weekCodec .empty).map SessionRecord.sid
      rw [hempty]
      simp
    · cases hev
      intro k hk
      cases honly h₂ hk
      exact orderly_writing rfl (by simp)
    · cases hev
      intro k hk
      cases honly h₃ hk
      exact orderly_writing rfl (by simp)
    · cases hev
      intro k hk
      cases honly h₄ hk
      exact orderly_writing rfl (by simp)
    · cases hev
      intro k hk
      cases honly h₅ hk
      exact orderly_writing rfl (by simp)
    · cases hev
      intro k hk
      cases honly h₆ hk
      exact orderly_writing rfl (by simp)
    · cases hev
  exact (stays_revoked (by rw [hempty]; exact List.nodup_nil) hrun).2.1

def revokedTwice : List SessionEvent :=
  loginRun ++ [.run (.call (.revokeSession "s", 0)), .run (.call (.revokeSession "s", 0)), .crash]

/-- **A session is accepted that was revoked**: the second call has found nothing to revoke and
has returned, nothing has failed, and the process that starts finds the session. -/
theorem revoked_is_accepted : ∃ W, Reach (sessionStep weekCodec)
        (fun _ ev ↦ ∀ i now, ev ≠ .run (.resume i (.failed, now)))
        (freshStore weekCodec .empty) W ∧
      W.tasks[2]? = some (.resolved { revokes := ["s"] } none) ∧
      ¬ Faithful weekCodec W (loadFile weekCodec W.shared.files) := by
  have hfinal : (after (sessionStep weekCodec) (freshStore weekCodec .empty) revokedTwice).tasks[2]?
        = some (.resolved { revokes := ["s"] } none) ∧
      (after (sessionStep weekCodec) (freshStore weekCodec .empty) revokedTwice).shared.files.read
        .file = some (loginBytes [login]) := by
    decide +kernel
  obtain ⟨htask, hread⟩ := hfinal
  refine ⟨_, Reach.of_after revokedTwice (by decide +kernel) ?_, htask, ?_⟩
  · intro n ev hev i now
    have hall : ∀ ev ∈ revokedTwice, ev ≠ .run (.resume i (.failed, now)) := by
      simp [revokedTwice, loginRun]
    exact hall ev (List.mem_of_getElem? hev)
  intro hfaithful
  have hnone := hfaithful.revoked 2 _ _ htask "s" (List.mem_singleton_self _) 0
  have hload : loadFile weekCodec (after (sessionStep weekCodec) (freshStore weekCodec .empty)
      revokedTwice).shared.files = [login] := by
    rw [loadFile, hread]
    show (weekCodec.parse (weekCodec.stringify [login])).getD [] = [login]
    rw [weekCodec.parse_stringify]
    rfl
  rw [hload] at hnone
  have hsome : accepted weekCodec [login] 0 "s" = some login := by decide +kernel
  rw [hsome] at hnone
  cases hnone

end OpenAlice.Auth
