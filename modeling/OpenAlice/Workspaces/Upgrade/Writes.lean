import OpenAlice.Workspaces.Upgrade.TemplateUpgrade

/-!
# What writing a snapshot changes

A snapshot is written path by path.  Each write puts a file at its path, or takes away what is
there, and leaves every other file, link and special entry (`leafAt_writeSnapshotFile`): this needs
that nothing stands under the name that the file has first, and that nothing is below what is taken
away.  The paths are written in the order of their texts, in which a path comes before everything
below it, so that what one write leaves the next ones do not take away (`leafAt_writeAll`).
-/

namespace OpenAlice.Workspaces.Upgrade

open OpenAlice.Data OpenAlice.Transfer

variable {sys : Platform} {T T' : WorkspaceTree} {path : Path}

/-! ## Reading -/

theorem issueAlong_append {above : List Path} (h : ∀ q ∈ above, T.node q = some .directory)
    (rest : List Path) : issueAlong T (above ++ rest) = issueAlong T rest := by
  induction above with
  | nil => rfl
  | cons q above ih =>
    rw [List.forall_mem_cons] at h
    rw [List.cons_append, issueAlong.eq_def]
    simp only [h.1]
    exact ih h.2

theorem inits_tail_concat (above : Path) (name : String) :
    (above ++ [name]).inits.tail = above.inits.tail ++ [above ++ [name]] := by
  rw [List.inits_append]
  cases above <;> rfl

theorem directories_of_node {above : Path} (h : T.node path ≠ none) (hle : above <+: path)
    (hne : above ≠ path) : ∀ q ∈ above.inits.tail, T.node q = some .directory := by
  intro q hq
  have hq' : q <+: above := (List.mem_inits q above).mp (List.mem_of_mem_tail hq)
  refine T.above q path h (hq'.trans hle) ?_
  rintro rfl
  exact hne (hle.eq_of_length_le hq'.length_le)

theorem parentPathIssue_of_node (h : T.node path ≠ none) : parentPathIssue T path = none := by
  rcases List.eq_nil_or_concat path with rfl | ⟨above, name, rfl⟩
  · rfl
  rw [List.concat_eq_append] at h ⊢
  have hdirectories := directories_of_node h (List.prefix_append above [name]) (by simp)
  rw [parentPathIssue, List.dropLast_concat, ← List.append_nil above.inits.tail,
    issueAlong_append hdirectories]
  rfl

theorem readLocalFile_of_leafAt {entry : Entry} (h : T.leafAt path = some entry) :
    readLocalFile sys T path = entry.snapshot sys := by
  have hnode := Tree.leafAt_eq_some.mp h
  rw [readLocalFile, parentPathIssue_of_node (hnode ▸ Option.some_ne_none _)]
  simp only [hnode]

theorem readLocalFile_of_directory (h : T.node path = some .directory) :
    readLocalFile sys T path = otherFile sys "directory" := by
  rw [readLocalFile, parentPathIssue_of_node (h ▸ Option.some_ne_none _)]
  simp only [h]

theorem leafAt_dropLast (h : parentPathIssue T path = none) : T.leafAt path.dropLast = none := by
  rw [parentPathIssue] at h
  generalize path.dropLast = parent at h
  by_contra hleaf
  obtain ⟨entry, hentry⟩ := Option.ne_none_iff_exists'.mp hleaf
  have hnode := Tree.leafAt_eq_some.mp hentry
  rcases List.eq_nil_or_concat parent with rfl | ⟨above, name, rfl⟩
  · rw [T.root] at hnode
    cases hnode
  rw [List.concat_eq_append] at h hnode
  have hdirectories := directories_of_node (hnode ▸ Option.some_ne_none _)
    (List.prefix_append above [name]) (by simp)
  rw [inits_tail_concat, issueAlong_append hdirectories, issueAlong.eq_def] at h
  simp only [hnode] at h
  cases entry <;> cases h

/-! ## One write -/

def SnapshotFile.entry (file : SnapshotFile) : Option Entry :=
  if file.kind = .file then some (.file (file.content.getD "")) else none

theorem pruneManagedParents_eq (h : T.leafAt path = none) : pruneManagedParents T path = T := by
  have hinits : ∃ rest, path.inits.reverse = path :: rest := by
    rcases List.eq_nil_or_concat path with rfl | ⟨above, name, rfl⟩
    · exact ⟨[], rfl⟩
    · rw [List.concat_eq_append, List.inits_append]
      exact ⟨above.inits.reverse, by simp⟩
  obtain ⟨rest, hrest⟩ := hinits
  rw [pruneManagedParents, hrest, pruneAlong]
  split_ifs
  · split
    · rename_i entry hentry
      rw [Tree.leafAt_eq_some.mpr hentry] at h
      cases h
    · rfl
  · rfl

theorem writeFile_eq_none {content : String} (h : writeFile sys T path content = (T', none))
    (hfree : T.leafAt path = none) :
    T.node path = none ∧ T.put path (.file content) = some T' := by
  rw [writeFile] at h
  split at h
  · cases h
  · rename_i hnode
    rw [Tree.leafAt_eq_some.mpr hnode] at hfree
    cases hfree
  · rename_i hnode
    rw [Tree.leafAt_eq_some.mpr hnode] at hfree
    cases hfree
  · rename_i hdirectory hsymlink hspecial
    split at h
    · rename_i hput
      cases h
      refine ⟨?_, hput⟩
      cases hnode : T.node path with
      | none => rfl
      | some node =>
        cases node with
        | directory => exact absurd hnode hdirectory
        | leaf entry =>
          rw [Tree.leafAt_eq_some.mpr hnode] at hfree
          cases hfree
    · cases h

theorem rename_eq_none {oldPath newPath : Path} (h : rename T oldPath newPath = (T', none)) :
    ∃ entry, T.leafAt oldPath = some entry ∧ (T.remove oldPath).put newPath entry = some T' := by
  rw [rename] at h
  split at h
  · cases h
  rename_i entry hentry
  split at h
  · rename_i hput
    cases h
    exact ⟨entry, hentry, hput⟩
  · cases h

/-- A write that succeeds, step by step. -/
inductive Written (sys : Platform) (T : WorkspaceTree) (path : Path) (file : SnapshotFile) :
    WorkspaceTree → Prop
  | removed (hkind : file.kind = .missing) (hparent : T.leafAt path.dropLast = none) :
      Written sys T path file (T.remove path)
  | replaced {T₁ T₂ T' : WorkspaceTree} (hkind : file.kind = .file)
      (hmkdirs : T.mkdirs path.dropLast = some T₁)
      (hwrite : writeFile sys T₁ (tempPath path) (file.content.getD "") = (T₂, none))
      (hrename : rename T₂ (tempPath path) path = (T', none)) :
      Written sys T path file T'

theorem ne_nil_of_isManaged (h : isManagedTemplatePath path = true) : path ≠ [] := by
  rintro rfl
  cases h

theorem written {file : SnapshotFile} (h : writeSnapshotFile sys T path file = (T', none)) :
    isManagedTemplatePath path = true ∧ Written sys T path file T' := by
  rw [writeSnapshotFile] at h
  have hmanaged : isManagedTemplatePath path = true := by
    by_contra hnot
    rw [Bool.not_eq_true] at hnot
    rw [hnot] at h
    cases h
  rw [hmanaged] at h
  refine ⟨hmanaged, ?_⟩
  simp only [Bool.not_true, Bool.false_eq_true, if_false] at h
  split at h
  · cases h
  rename_i hissue
  have hparent := leafAt_dropLast hissue
  split at h
  · cases h
  · rename_i hkind
    have hbelow : (T.remove path).leafAt path.dropLast = none := by
      rw [Tree.leafAt_remove (ne_nil_of_isManaged hmanaged)]
      split_ifs
      · rfl
      · exact hparent
    rw [pruneManagedParents_eq hbelow] at h
    cases h
    exact .removed hkind hparent
  · rename_i hkind
    split at h
    · cases h
    rename_i T₁ hmkdirs
    split at h
    · cases h
    · rename_i T₂ hwrite
      exact .replaced hkind hmkdirs hwrite h

theorem leafAt_writeSnapshotFile {file : SnapshotFile}
    (h : writeSnapshotFile sys T path file = (T', none)) (htemp : T.leafAt (tempPath path) = none)
    (hbelow : file.kind = .missing → ∀ q, path <+: q → q ≠ path → T.leafAt q = none) (q : Path) :
    T'.leafAt q = if q = path then file.entry else T.leafAt q := by
  obtain ⟨hmanaged, hwritten⟩ := written h
  cases hwritten with
  | removed hkind hparent =>
    rw [Tree.leafAt_remove (ne_nil_of_isManaged hmanaged), SnapshotFile.entry, hkind]
    by_cases hq : q = path
    · rw [if_pos hq, if_pos (hq ▸ List.prefix_rfl)]
      rfl
    rw [if_neg hq]
    split_ifs with hle
    · exact (hbelow hkind q hle hq).symm
    · rfl
  | replaced hkind hmkdirs hwrite hrename =>
    rename_i T₁ T₂
    have hmade := Tree.leafAt_mkdirs hmkdirs
    obtain ⟨hfree, hput⟩ := writeFile_eq_none hwrite ((congrFun hmade _).trans htemp)
    obtain ⟨entry, hentry, hmoved⟩ := rename_eq_none hrename
    rw [Tree.leafAt_put hput, if_pos rfl] at hentry
    cases hentry
    have hne : tempPath path ≠ [] := by
      rw [tempPath]
      exact List.concat_ne_nil _ _
    rw [Tree.leafAt_put hmoved, SnapshotFile.entry, if_pos hkind]
    by_cases hq : q = path
    · rw [if_pos hq, if_pos hq]
    rw [if_neg hq, if_neg hq, Tree.leafAt_remove hne]
    split_ifs with hle
    · -- nothing was under the temporary name
      rw [← hmade]
      by_cases heq : tempPath path = q
      · exact (Tree.leafAt_of_none (heq ▸ hfree)).symm
      refine (Tree.leafAt_of_none (Tree.node_below ?_ hle heq)).symm
      rw [hfree]
      rintro ⟨⟩
    · have hq' : q ≠ tempPath path := by
        rintro rfl
        exact hle List.prefix_rfl
      rw [Tree.leafAt_put hput, if_neg hq', hmade]

theorem directory_writeSnapshotFile {file : SnapshotFile} {q : Path}
    (h : writeSnapshotFile sys T path file = (T', none)) (htemp : T.leafAt (tempPath path) = none)
    (hq : T'.node q = some .directory) :
    T.node q = some .directory ∨ q <+: path.dropLast := by
  obtain ⟨hmanaged, hwritten⟩ := written h
  cases hwritten with
  | removed hkind hparent =>
    rw [Tree.node_remove (ne_nil_of_isManaged hmanaged)] at hq
    split_ifs at hq
    exact .inl hq
  | replaced hkind hmkdirs hwrite hrename =>
    have hmade := Tree.leafAt_mkdirs hmkdirs
    obtain ⟨hfree, hput⟩ := writeFile_eq_none hwrite ((congrFun hmade _).trans htemp)
    obtain ⟨entry, hentry, hmoved⟩ := rename_eq_none hrename
    have hne : tempPath path ≠ [] := by
      rw [tempPath]
      exact List.concat_ne_nil _ _
    rw [Tree.node_put hmoved] at hq
    split_ifs at hq
    · cases hq
    rw [Tree.node_remove hne] at hq
    split_ifs at hq
    rw [Tree.node_put hput] at hq
    split_ifs at hq
    · cases hq
    rw [Tree.node_mkdirs hmkdirs] at hq
    split_ifs at hq with hle
    · exact .inr hle
    · exact .inl hq

/-! ## The order of the paths -/

theorem unitsLe_total (left right : List Nat) :
    unitsLe left right = true ∨ unitsLe right left = true := by
  induction left generalizing right with
  | nil => exact .inl rfl
  | cons a left ih =>
    cases right with
    | nil => exact .inr rfl
    | cons b right =>
      simp only [unitsLe, Bool.or_eq_true, decide_eq_true_eq, Bool.and_eq_true, beq_iff_eq]
      rcases lt_trichotomy a b with hlt | heq | hgt
      · exact .inl (.inl hlt)
      · rcases ih right with hle | hle
        · exact .inl (.inr ⟨heq, hle⟩)
        · exact .inr (.inr ⟨heq.symm, hle⟩)
      · exact .inr (.inl hgt)

theorem unitsLe_trans {a b c : List Nat} (hab : unitsLe a b = true) (hbc : unitsLe b c = true) :
    unitsLe a c = true := by
  induction a generalizing b c with
  | nil => rfl
  | cons x a ih =>
    cases b with
    | nil => cases hab
    | cons y b =>
      cases c with
      | nil => cases hbc
      | cons z c =>
        simp only [unitsLe, Bool.or_eq_true, decide_eq_true_eq, Bool.and_eq_true,
          beq_iff_eq] at hab hbc ⊢
        rcases hab with hxy | ⟨rfl, hab⟩
        · rcases hbc with hyz | ⟨rfl, -⟩
          · exact .inl (hxy.trans hyz)
          · exact .inl hxy
        rcases hbc with hyz | ⟨rfl, hbc⟩
        · exact .inl hyz
        · exact .inr ⟨rfl, ih hab hbc⟩

theorem unitsLe_append (left : List Nat) (a : Nat) (rest : List Nat) :
    unitsLe (left ++ a :: rest) left = false := by
  induction left with
  | nil => rfl
  | cons b left ih =>
    rw [List.cons_append, unitsLe, ih]
    simp

instance : Std.Total pathLe := ⟨fun _ _ ↦ unitsLe_total _ _⟩

instance : IsTrans Path pathLe := ⟨fun _ _ _ ↦ unitsLe_trans⟩

theorem text_append (hpath : path ≠ []) (name : String) (rest : Path) :
    Path.text (path ++ name :: rest) = Path.text path ++ "/" ++ Path.text (name :: rest) := by
  induction path with
  | nil => exact absurd rfl hpath
  | cons first others ih =>
    cases others with
    | nil =>
      simp only [Path.text, List.singleton_append, String.intercalate_cons_cons,
        String.intercalate_singleton]
    | cons second others =>
      rw [List.cons_append, List.cons_append, Path.text, String.intercalate_cons_cons,
        ← List.cons_append, ← Path.text, ih (List.cons_ne_nil _ _)]
      conv_rhs => rw [Path.text, String.intercalate_cons_cons, ← Path.text]
      simp only [String.append_assoc]

theorem not_pathLe_of_below {below : Path} (hpath : path ≠ []) (hle : path <+: below)
    (hne : path ≠ below) : ¬ pathLe below path := by
  obtain ⟨rest, rfl⟩ := hle
  cases rest with
  | nil => exact absurd (List.append_nil path).symm hne
  | cons name rest =>
    rw [pathLe, text_append hpath, utf16_append, utf16_append, List.append_assoc]
    have hslash : ∃ units, utf16 "/" ++ utf16 (Path.text (name :: rest)) = 47 :: units := ⟨_, rfl⟩
    obtain ⟨units, hunits⟩ := hslash
    rw [hunits, unitsLe_append]
    exact Bool.false_ne_true

/-! ## All writes -/

/-- The conditions under which writes do not get into each other's way: a later path is not above
an earlier one, nothing stands under a temporary name, and nothing below what is taken away. -/
structure Apart (T : WorkspaceTree) (snapshot : Snapshot) (paths : List Path) : Prop where
  order : paths.Pairwise fun earlier later ↦ ¬ later <+: earlier
  temp : ∀ path ∈ paths, T.leafAt (tempPath path) = none ∧ tempPath path ∉ paths
  below : ∀ path ∈ paths, (snapshot.at path).kind = .missing →
    ∀ q, path <+: q → q ≠ path → T.leafAt q = none

variable {M : Manager} {snapshot : Snapshot} {paths : List Path}

theorem Apart.tail {T₁ : WorkspaceTree} (h : Apart T snapshot (path :: paths))
    (hleaf : ∀ q, T₁.leafAt q = if q = path then (snapshot.at path).entry else T.leafAt q) :
    Apart T₁ snapshot paths := by
  obtain ⟨horder, htail⟩ := List.pairwise_cons.mp h.order
  refine ⟨htail, fun p hp ↦ ?_, fun p hp hkind q hle hne ↦ ?_⟩
  · obtain ⟨hfree, hnot⟩ := h.temp p (List.mem_cons_of_mem path hp)
    have hne : tempPath p ≠ path := fun heq ↦ hnot (heq ▸ List.mem_cons_self)
    rw [hleaf, if_neg hne]
    exact ⟨hfree, fun hmem ↦ hnot (List.mem_cons_of_mem path hmem)⟩
  have hq : q ≠ path := by
    rintro rfl
    exact horder p hp hle
  rw [hleaf, if_neg hq]
  exact h.below p (List.mem_cons_of_mem path hp) hkind q hle hne

theorem writeAll_cons (h : writeAll M T snapshot (path :: paths) = (T', none)) :
    ∃ T₁, writeSnapshotFile M.sys T path (snapshot.at path) = (T₁, none) ∧
      writeAll M T₁ snapshot paths = (T', none) := by
  rw [writeAll] at h
  split at h
  · rename_i T₁ hwrite
    exact ⟨T₁, hwrite, h⟩
  · cases h

theorem Apart.leafAt_head {T₁ : WorkspaceTree} (h : Apart T snapshot (path :: paths))
    (hwrite : writeSnapshotFile M.sys T path (snapshot.at path) = (T₁, none)) (q : Path) :
    T₁.leafAt q = if q = path then (snapshot.at path).entry else T.leafAt q :=
  leafAt_writeSnapshotFile hwrite (h.temp path List.mem_cons_self).1
    (h.below path List.mem_cons_self) q

theorem leafAt_writeAll (h : writeAll M T snapshot paths = (T', none))
    (hapart : Apart T snapshot paths) (q : Path) :
    T'.leafAt q = if q ∈ paths then (snapshot.at q).entry else T.leafAt q := by
  induction paths generalizing T with
  | nil =>
    cases h
    exact (if_neg List.not_mem_nil).symm
  | cons path paths ih =>
    obtain ⟨T₁, hwrite, hrest⟩ := writeAll_cons h
    have hhead := hapart.leafAt_head hwrite
    rw [ih hrest (hapart.tail hhead), hhead]
    by_cases hmem : q ∈ paths
    · rw [if_pos hmem, if_pos (List.mem_cons_of_mem path hmem)]
    rw [if_neg hmem]
    by_cases hq : q = path
    · rw [if_pos hq, if_pos (hq ▸ List.mem_cons_self), hq]
    rw [if_neg hq, if_neg]
    rw [List.mem_cons, not_or]
    exact ⟨hq, hmem⟩

theorem directory_writeAll (h : writeAll M T snapshot paths = (T', none))
    (hapart : Apart T snapshot paths) {q : Path} (hq : T'.node q = some .directory) :
    T.node q = some .directory ∨ ∃ path ∈ paths, q <+: path.dropLast := by
  induction paths generalizing T with
  | nil =>
    cases h
    exact .inl hq
  | cons path paths ih =>
    obtain ⟨T₁, hwrite, hrest⟩ := writeAll_cons h
    rcases ih hrest (hapart.tail (hapart.leafAt_head hwrite)) with hq | ⟨p, hp, hle⟩
    · rcases directory_writeSnapshotFile hwrite (hapart.temp path List.mem_cons_self).1 hq with
        hq | hle
      · exact .inl hq
      · exact .inr ⟨path, List.mem_cons_self, hle⟩
    · exact .inr ⟨p, List.mem_cons_of_mem path hp, hle⟩

theorem kind_writeAll (h : writeAll M T snapshot paths = (T', none)) :
    ∀ path ∈ paths, (snapshot.at path).kind ≠ .other := by
  induction paths generalizing T with
  | nil => rintro path ⟨⟩
  | cons path paths ih =>
    obtain ⟨T₁, hwrite, hrest⟩ := writeAll_cons h
    refine List.forall_mem_cons.mpr ⟨?_, ih hrest⟩
    cases (written hwrite).2 with
    | removed hkind _ =>
      rw [hkind]
      rintro ⟨⟩
    | replaced hkind _ _ _ =>
      rw [hkind]
      rintro ⟨⟩

end OpenAlice.Workspaces.Upgrade
