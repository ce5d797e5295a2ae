import Mathlib.Data.List.Basic
import Mathlib.Logic.Function.Basic

/-!
# Files and the names that lead to them

A name leads to a file, and whoever has the file open reaches it whatever its name
leads to by then.  Opening a file for writing empties it at once; what is written goes
where the writer is in the file, which need not be where the file ends.

The second half is the usual way to replace a file: its text is written to a temporary
name, which is then renamed over it.

Two names never lead to one file here, and none leads to a file that is yet to be made;
`Files` carries both.
-/

universe u v

namespace OpenAlice.Data

/-- Some files, by their numbers, and the names that lead to them. -/
structure Files (N : Type u) (α : Type v) where
  /-- The file that a name leads to. -/
  entry : N → Option Nat
  text : Nat → List α
  fresh : Nat
  made : ∀ n i, entry n = some i → i < fresh
  distinct : ∀ m n i, entry m = some i → entry n = some i → m = n

namespace Files

variable {N : Type u} {α : Type v}

def empty : Files N α where
  entry _ := none
  text _ := []
  fresh := 0
  made _ _ h := by cases h
  distinct _ _ _ h := by cases h

def read (F : Files N α) (n : N) : Option (List α) := (F.entry n).map F.text

theorem read_of_entry {F : Files N α} {n : N} {i : Nat} (h : F.entry n = some i) :
    F.read n = some (F.text i) := by
  rw [read, h]
  rfl

theorem entry_of_read {F : Files N α} {n : N} {l : List α} (h : F.read n = some l) :
    ∃ i, F.entry n = some i ∧ F.text i = l :=
  Option.map_eq_some_iff.mp h

def put (F : Files N α) (i : Nat) (l : List α) : Files N α :=
  { F with text := Function.update F.text i l }

section Names

variable [DecidableEq N]

def make (F : Files N α) (n : N) : Files N α where
  entry := Function.update F.entry n (some F.fresh)
  text := Function.update F.text F.fresh []
  fresh := F.fresh + 1
  made m i hm := by
    rcases eq_or_ne m n with rfl | hmn
    · rw [Function.update_self] at hm
      cases hm
      exact Nat.lt_succ_self _
    · rw [Function.update_of_ne hmn] at hm
      exact Nat.lt_succ_of_lt (F.made m i hm)
  distinct m m' i hm hm' := by
    by_cases hmn : m = n <;> by_cases hmn' : m' = n
    · exact hmn.trans hmn'.symm
    · rw [hmn, Function.update_self] at hm
      rw [Function.update_of_ne hmn'] at hm'
      cases hm
      exact absurd (F.made _ _ hm') (Nat.lt_irrefl _)
    · rw [Function.update_of_ne hmn] at hm
      rw [hmn', Function.update_self] at hm'
      cases hm'
      exact absurd (F.made _ _ hm) (Nat.lt_irrefl _)
    · rw [Function.update_of_ne hmn] at hm
      rw [Function.update_of_ne hmn'] at hm'
      exact F.distinct m m' i hm hm'

def truncate (F : Files N α) (n : N) : Files N α × Nat :=
  match F.entry n with
  | some i => (F.put i [], i)
  | none => (F.make n, F.fresh)

def rename (F : Files N α) (old new : N) : Option (Files N α) :=
  match h : F.entry old with
  | none => none
  | some i => some
      { F with
        entry := Function.update (Function.update F.entry old none) new (some i)
        made := by
          intro m j hm
          rcases eq_or_ne m new with rfl | hnew
          · rw [Function.update_self] at hm
            cases hm
            exact F.made old i h
          rw [Function.update_of_ne hnew] at hm
          rcases eq_or_ne m old with rfl | hold
          · rw [Function.update_self] at hm
            cases hm
          · rw [Function.update_of_ne hold] at hm
            exact F.made m j hm
        distinct := by
          have other : ∀ m j, m ≠ new →
              Function.update (Function.update F.entry old none) new (some i) m = some j →
              j ≠ i ∧ F.entry m = some j := by
            intro m j hnew hm
            rw [Function.update_of_ne hnew] at hm
            rcases eq_or_ne m old with rfl | hold
            · rw [Function.update_self] at hm
              cases hm
            rw [Function.update_of_ne hold] at hm
            refine ⟨?_, hm⟩
            rintro rfl
            exact hold (F.distinct m old j hm h)
          intro m m' j hm hm'
          by_cases hnew : m = new <;> by_cases hnew' : m' = new
          · exact hnew.trans hnew'.symm
          · rw [hnew, Function.update_self] at hm
            cases hm
            exact absurd rfl (other m' i hnew' hm').1
          · rw [hnew', Function.update_self] at hm'
            cases hm'
            exact absurd rfl (other m i hnew hm).1
          · exact F.distinct m m' j (other m j hnew hm).2 (other m' j hnew' hm').2 }

end Names

/-! ## What a name leads to afterwards -/

section After

variable {F F' : Files N α} {m n old new : N} {i : Nat} {l : List α}

@[simp] theorem entry_put : (F.put i l).entry n = F.entry n := rfl

@[simp] theorem text_put : (F.put i l).text i = l := Function.update_self ..

theorem read_put_of_ne (h : F.entry n ≠ some i) : (F.put i l).read n = F.read n := by
  rw [read, read, entry_put]
  cases hn : F.entry n with
  | none => rfl
  | some j =>
    have hji : j ≠ i := by
      rintro rfl
      exact h hn
    exact congrArg some (Function.update_of_ne hji ..)

variable [DecidableEq N]

theorem entry_truncate : (F.truncate n).1.entry n = some (F.truncate n).2 := by
  rw [truncate]
  cases h : F.entry n with
  | none => exact Function.update_self ..
  | some i => exact h

theorem text_truncate : (F.truncate n).1.text (F.truncate n).2 = [] := by
  rw [truncate]
  cases h : F.entry n with
  | none => exact Function.update_self ..
  | some i => exact Function.update_self ..

/-- The files under other names hold what they held. -/
theorem read_truncate_of_ne (h : m ≠ n) : (F.truncate n).1.read m = F.read m := by
  rw [truncate]
  cases hn : F.entry n with
  | some i =>
    refine read_put_of_ne ?_
    intro hm
    exact h (F.distinct m n i hm hn)
  | none =>
    show Option.map _ (Function.update F.entry n (some F.fresh) m) = Option.map _ (F.entry m)
    rw [Function.update_of_ne h]
    cases hm : F.entry m with
    | none => rfl
    | some i => exact congrArg some (Function.update_of_ne (Nat.ne_of_lt (F.made m i hm)) ..)

theorem rename_of_entry (h : F.entry old = some i) : (F.rename old new).isSome = true := by
  unfold rename
  split
  · rename_i hnone
    rw [h] at hnone
    cases hnone
  · rfl

theorem entry_rename (h : F.rename old new = some F') :
    ∃ i, F.entry old = some i ∧ F'.text = F.text ∧
      F'.entry = Function.update (Function.update F.entry old none) new (some i) := by
  unfold rename at h
  split at h
  · cases h
  rename_i i hi
  cases h
  exact ⟨i, hi, rfl, rfl⟩

theorem read_rename (h : F.rename old new = some F') : F'.read new = F.read old := by
  obtain ⟨i, hi, htext, hentry⟩ := entry_rename h
  rw [read, read, htext, hentry, Function.update_self, hi]

end After

/-! ## Writing -/

section Writing

variable [Inhabited α]

def overlay (text : List α) (offset : Nat) (piece : List α) : List α :=
  text.take offset ++ List.replicate (offset - text.length) default ++ piece ++
    text.drop (offset + piece.length)

theorem overlay_length (text piece : List α) : overlay text text.length piece = text ++ piece := by
  simp [overlay]

/-- Write the next `k` characters of `l` at some place of an open file. -/
def write (F : Files N α) (i offset k : Nat) (l : List α) : Files N α :=
  F.put i (overlay (F.text i) offset ((l.drop offset).take k))

theorem text_write {F : Files N α} {i offset k : Nat} {l : List α}
    (h : F.text i = l.take offset) (hle : offset ≤ l.length) :
    (F.write i offset k l).text i = l.take (offset + k) := by
  have hlen : offset = (F.text i).length := by
    rw [h, List.length_take, Nat.min_eq_left hle]
  have hover : ∀ piece, overlay (F.text i) offset piece = l.take offset ++ piece := by
    intro piece
    rw [hlen, overlay_length, ← hlen, h]
  rw [write, text_put, hover, List.take_add]

end Writing

/-! ## Replacing a file -/

/-- How far a `writeFile` of a temporary file and its `rename` are. -/
inductive Replacing where
  /-- Before the temporary file is opened. -/
  | opening
  | writing (i offset : Nat)
  | moving
deriving DecidableEq

/-- What has come of it after one more operation. -/
inductive Progress where
  | going (r : Replacing)
  | replaced
  | failed

/-- How an operation ends: it has written so many characters, if it writes, or it fails. -/
inductive Answer where
  | done (k : Nat)
  | failed

section Replacing

variable [DecidableEq N] [Inhabited α]

/-- The next operation of replacing `path` by a file with text `l`. -/
def replaceStep (tmp path : N) (l : List α) (F : Files N α) :
    Replacing → Answer → Option (Files N α × Progress)
  | _, .failed => some (F, .failed)
  | .opening, .done _ => some ((F.truncate tmp).1, .going (.writing (F.truncate tmp).2 0))
  | .writing i offset, .done k =>
    if offset + k < l.length then
      some (F.write i offset k l, .going (.writing i (offset + k)))
    else if offset + k = l.length then some (F.write i offset k l, .going .moving)
    else none
  | .moving, .done _ =>
    match F.rename tmp path with
    | none => some (F, .failed)
    | some F' => some (F', .replaced)

def Fits (tmp : N) (l : List α) (F : Files N α) : Replacing → Prop
  | .opening => True
  | .writing i offset =>
    F.entry tmp = some i ∧ F.text i = l.take offset ∧ offset ≤ l.length
  | .moving => F.read tmp = some l

variable {tmp path : N} {l : List α} {F F' : Files N α} {r : Replacing} {p : Progress} {k : Nat}

/-- **One operation of a replacement that nobody else disturbs**: the temporary file comes
nearer to its text, and nothing but the last operation changes what `path` leads to. -/
theorem replaceStep_done (hne : path ≠ tmp) (hfit : F.Fits tmp l r)
    (h : replaceStep tmp path l F r (.done k) = some (F', p)) :
    (∃ r', p = .going r' ∧ r' ≠ .opening ∧ F'.Fits tmp l r' ∧ F'.read path = F.read path) ∨
      p = .replaced ∧ r = .moving ∧ F'.read path = some l := by
  cases r with
  | opening =>
    cases h
    refine .inl ⟨_, rfl, by simp, ⟨entry_truncate, ?_, Nat.zero_le _⟩, read_truncate_of_ne hne⟩
    rw [text_truncate, List.take_zero]
  | writing i offset =>
    obtain ⟨hentry, htext, hle⟩ := hfit
    have hother : ∀ k, (F.write i offset k l).read path = F.read path := by
      intro k
      refine read_put_of_ne ?_
      intro hpath
      exact hne (F.distinct path tmp i hpath hentry)
    simp only [replaceStep] at h
    split_ifs at h with hlt heq
    · cases h
      exact .inl ⟨_, rfl, by simp, ⟨hentry, text_write htext hle, Nat.le_of_lt hlt⟩, hother k⟩
    · cases h
      refine .inl ⟨_, rfl, by simp, ?_, hother k⟩
      have hwhole : (F.write i offset k l).text i = l := by
        rw [text_write htext hle, heq, List.take_length]
      have hnow : (F.write i offset k l).entry tmp = some i := hentry
      exact (read_of_entry hnow).trans (congrArg some hwhole)
  | moving =>
    obtain ⟨i, hentry, htext⟩ := entry_of_read hfit
    obtain ⟨F'', hF⟩ := Option.isSome_iff_exists.mp
      (rename_of_entry hentry : (F.rename tmp path).isSome = true)
    simp only [replaceStep, hF] at h
    cases h
    refine .inr ⟨rfl, rfl, ?_⟩
    rw [read_rename hF, hfit]

end Replacing

end Files

end OpenAlice.Data
