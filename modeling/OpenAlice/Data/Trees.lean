import Mathlib.Data.List.Infix

/-!
# Trees of directories

A tree has at every path nothing, a directory or a leaf; what stands at a path stands in
directories only.  What is read of a tree here are its leaves: a directory that is made or left
behind changes none of them.

Nothing here knows what the names and the leaves are.
-/

universe u v

namespace OpenAlice.Data

inductive TreeNode (A : Type v) where
  | directory
  | leaf (a : A)
deriving DecidableEq

structure Tree (N : Type u) (A : Type v) where
  node : List N → Option (TreeNode A)
  /-- Every path at which something stands is among these. -/
  names : List (List N)
  listed : ∀ p, node p ≠ none → p ∈ names
  root : node [] = some .directory
  above : ∀ p q, node q ≠ none → p <+: q → p ≠ q → node p = some .directory

namespace Tree

variable {N : Type u} {A : Type v}

def empty [DecidableEq N] : Tree N A where
  node p := if p = [] then some .directory else none
  names := [[]]
  listed p h := by
    have hp : p = [] := by
      by_contra hne
      exact h (if_neg hne)
    exact hp ▸ List.mem_cons_self
  root := if_pos rfl
  above p q h hle _ := by
    have hq : q = [] := by
      by_contra hne
      exact h (if_neg hne)
    rw [hq, List.prefix_nil] at hle
    exact if_pos hle

def leafAt (T : Tree N A) (p : List N) : Option A :=
  match T.node p with
  | some (.leaf a) => some a
  | _ => none

def leaves (T : Tree N A) : List (List N) := T.names.filter fun p ↦ (T.leafAt p).isSome

variable {T T' : Tree N A} {p q : List N} {a : A}

theorem leafAt_eq_some : T.leafAt p = some a ↔ T.node p = some (.leaf a) := by
  rw [leafAt]
  constructor
  · intro h
    split at h
    · rename_i b hb
      rw [hb, Option.some.inj h]
    · cases h
  · intro h
    rw [h]

theorem leafAt_of_none (h : T.node p = none) : T.leafAt p = none := by
  rw [leafAt, h]

theorem leafAt_of_directory (h : T.node p = some .directory) : T.leafAt p = none := by
  rw [leafAt, h]

theorem mem_leaves : p ∈ T.leaves ↔ (T.leafAt p).isSome = true := by
  rw [leaves, List.mem_filter, and_iff_right_iff_imp]
  intro h
  refine T.listed p fun hnone ↦ ?_
  rw [leafAt_of_none hnone] at h
  cases h

theorem node_below (h : T.node p ≠ some .directory) (hle : p <+: q) (hne : p ≠ q) :
    T.node q = none := by
  by_contra hq
  exact h (T.above p q hq hle hne)

variable [DecidableEq N]

/-! ## Making -/

def insert (T : Tree N A) (p : List N) (n : TreeNode A)
    (hparent : T.node p.dropLast = some .directory) (hfree : T.node p ≠ some .directory) :
    Tree N A where
  node q := if q = p then some n else T.node q
  names := p :: T.names
  listed q h := by
    split_ifs at h with hq
    · exact hq ▸ List.mem_cons_self
    · exact List.mem_cons_of_mem _ (T.listed q h)
  root := by
    have hne : [] ≠ p := by
      rintro rfl
      exact hfree T.root
    rw [if_neg hne]
    exact T.root
  above r q h hle hne := by
    split_ifs at h with hq
    · subst hq
      rw [if_neg hne]
      by_cases heq : r = q.dropLast
      · exact heq ▸ hparent
      refine T.above r q.dropLast ?_ ?_ heq
      · exact hparent ▸ Option.some_ne_none _
      rcases List.eq_nil_or_concat q with rfl | ⟨l, x, rfl⟩
      · exact absurd (List.prefix_nil.mp hle) hne
      rw [List.concat_eq_append] at hle hne ⊢
      rw [List.dropLast_concat]
      exact (List.prefix_concat_iff.mp hle).resolve_left hne
    · have hr : r ≠ p := fun heq ↦ hfree (heq ▸ T.above r q h hle hne)
      rw [if_neg hr]
      exact T.above r q h hle hne

def put (T : Tree N A) (p : List N) (a : A) : Option (Tree N A) :=
  match hparent : T.node p.dropLast, hfree : T.node p with
  | some .directory, some (.leaf _) =>
    some (T.insert p (.leaf a) hparent (hfree ▸ by simp))
  | some .directory, none => some (T.insert p (.leaf a) hparent (hfree ▸ by simp))
  | _, _ => none

def mkdir (T : Tree N A) (p : List N) : Option (Tree N A) :=
  match hfree : T.node p, hparent : T.node p.dropLast with
  | some .directory, _ => some T
  | none, some .directory => some (T.insert p .directory hparent (hfree ▸ by simp))
  | _, _ => none

/-- `mkdir` with the directories above. -/
def mkdirs (T : Tree N A) (p : List N) : Option (Tree N A) := p.inits.foldlM mkdir T

/-- Remove a path and what is below. -/
def remove (T : Tree N A) (p : List N) : Tree N A where
  node q := if p ≠ [] ∧ p <+: q then none else T.node q
  names := T.names
  listed q h := T.listed q fun hnone ↦ h (by rw [hnone, ite_self])
  root := by
    have hroot : ¬ (p ≠ [] ∧ p <+: []) := fun h ↦ h.1 (List.prefix_nil.mp h.2)
    rw [if_neg hroot]
    exact T.root
  above r q h hle hne := by
    have hq : ¬ (p ≠ [] ∧ p <+: q) := fun hbelow ↦ h (if_pos hbelow)
    have hr : ¬ (p ≠ [] ∧ p <+: r) := fun hbelow ↦ hq ⟨hbelow.1, hbelow.2.trans hle⟩
    rw [if_neg hq] at h
    rw [if_neg hr]
    exact T.above r q h hle hne

/-! ## What making changes -/

theorem node_put (h : T.put p a = some T') (q : List N) :
    T'.node q = if q = p then some (.leaf a) else T.node q := by
  rw [put.eq_def] at h
  split at h
  · cases h
    rfl
  · cases h
    rfl
  · cases h

theorem leafAt_put (h : T.put p a = some T') (q : List N) :
    T'.leafAt q = if q = p then some a else T.leafAt q := by
  rw [leafAt, node_put h]
  split_ifs <;> rfl

theorem node_mkdir (h : T.mkdir p = some T') (q : List N) :
    T'.node q = if q = p then some .directory else T.node q := by
  rw [mkdir.eq_def] at h
  split at h
  · rename_i hdirectory
    cases h
    split_ifs with hq
    · rw [hq, hdirectory]
    · rfl
  · cases h
    rfl
  · cases h

theorem leafAt_mkdir (h : T.mkdir p = some T') : T'.leafAt = T.leafAt := by
  have hfree : T.leafAt p = none := by
    rw [mkdir.eq_def] at h
    split at h
    · exact leafAt_of_directory ‹_›
    · exact leafAt_of_none ‹_›
    · cases h
  funext q
  by_cases hq : q = p
  · rw [hq, hfree]
    exact leafAt_of_directory ((node_mkdir h p).trans (if_pos rfl))
  · rw [leafAt, leafAt, node_mkdir h, if_neg hq]

theorem node_foldlM_mkdir {ps : List (List N)} (h : ps.foldlM mkdir T = some T') (q : List N) :
    T'.node q = if q ∈ ps then some .directory else T.node q := by
  induction ps generalizing T with
  | nil =>
    cases h
    rfl
  | cons p ps ih =>
    rw [List.foldlM_cons, Option.bind_eq_bind, Option.bind_eq_some_iff] at h
    obtain ⟨T₁, hmkdir, h⟩ := h
    rw [ih h, node_mkdir hmkdir]
    by_cases hps : q ∈ ps
    · rw [if_pos hps, if_pos (List.mem_cons_of_mem p hps)]
    · rw [if_neg hps]
      simp only [List.mem_cons, hps, or_false]

theorem leafAt_foldlM_mkdir {ps : List (List N)} (h : ps.foldlM mkdir T = some T') :
    T'.leafAt = T.leafAt := by
  induction ps generalizing T with
  | nil =>
    cases h
    rfl
  | cons p ps ih =>
    rw [List.foldlM_cons, Option.bind_eq_bind, Option.bind_eq_some_iff] at h
    obtain ⟨T₁, hmkdir, h⟩ := h
    rw [ih h, leafAt_mkdir hmkdir]

theorem node_mkdirs (h : T.mkdirs p = some T') (q : List N) :
    T'.node q = if q <+: p then some .directory else T.node q := by
  rw [node_foldlM_mkdir h]
  simp only [List.mem_inits]

theorem leafAt_mkdirs (h : T.mkdirs p = some T') : T'.leafAt = T.leafAt :=
  leafAt_foldlM_mkdir h

/-! ## What removing changes -/

theorem node_remove (hp : p ≠ []) (q : List N) :
    (T.remove p).node q = if p <+: q then none else T.node q := by
  simp only [remove, hp, ne_eq, not_false_eq_true, true_and]

theorem leafAt_remove (hp : p ≠ []) (q : List N) :
    (T.remove p).leafAt q = if p <+: q then none else T.leafAt q := by
  rw [leafAt, node_remove hp]
  split_ifs <;> rfl

end Tree

end OpenAlice.Data
