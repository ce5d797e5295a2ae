import OpenAlice.Workspaces.Upgrade.Writes

/-!
# The three-way merge of a template upgrade

What an `applyLocked` that succeeds makes of the workspace, path by path, and what the next preview
shows.  A path *holds* a file, a link or a special entry; a directory is none of these, and below a
file there is none.

Two things can go wrong, and are excluded (`Clear`): a path that is `ready` at which a directory
stands, which is taken away with all that is in it, and a file under a name under which a new file
is written first.
-/

namespace OpenAlice.Workspaces.Upgrade

open OpenAlice.Data OpenAlice.Transfer

variable {M : Manager}

/-! ## What should hold -/

def Holds (T : WorkspaceTree) (path : Path) (file : SnapshotFile) : Prop :=
  match file.kind with
  | .file => ∃ content, file.content = some content ∧ T.leafAt path = some (.file content)
  | .missing => T.leafAt path = none
  | .other => False

/-- **The merge at one path**: of a base and an incoming template, between the workspace before and
the workspace afterwards. -/
structure MergedAt (sys : Platform) (base incoming : Snapshot)
    (resolutions : Path → Option Resolution) (T T' : WorkspaceTree) (path : Path) : Prop where
  common : sameFile (readLocalFile sys T path) (incoming.at path) = true →
    T'.leafAt path = T.leafAt path
  taken : sameFile (readLocalFile sys T path) (incoming.at path) = false →
    sameFile (readLocalFile sys T path) (base.at path) = true ∨
      sameFile (incoming.at path) (base.at path) = false ∧ resolutions path = some .template →
    Holds T' path (incoming.at path)
  kept : sameFile (readLocalFile sys T path) (incoming.at path) = false →
    sameFile (incoming.at path) (base.at path) = true ∨
      sameFile (readLocalFile sys T path) (base.at path) = false ∧
        resolutions path = some .workspace →
    T'.leafAt path = T.leafAt path
  resolved : sameFile (readLocalFile sys T path) (incoming.at path) = false →
    sameFile (readLocalFile sys T path) (base.at path) = false →
    sameFile (incoming.at path) (base.at path) = false → resolutions path ≠ none

/-- A conflict is resolved, and not by a template that cannot be used. -/
def ValidResolution (resolutions : Path → Option Resolution) (file : FilePlan) : Prop :=
  file.status = .conflict → resolutions file.path = some .workspace ∨
    resolutions file.path = some .template ∧ file.canUseTemplate = true

/-- Nothing gets lost that is in no plan: no directory stands at a path that is `ready`, and nothing
under the temporary name of any path of the plan. -/
structure Clear (T : WorkspaceTree) (files : List FilePlan) : Prop where
  directory : ∀ file ∈ files, file.status = .ready → T.node file.path ≠ some .directory
  temp : ∀ file ∈ files, T.leafAt (tempPath file.path) = none ∧
    tempPath file.path ∉ files.map FilePlan.path

/-! ## Same files -/

theorem sameFile_iff {left right : SnapshotFile} : sameFile left right = true ↔
    left.kind = right.kind ∧ left.fingerprint = right.fingerprint := by
  rw [sameFile, Bool.and_eq_true, beq_iff_eq, beq_iff_eq]

theorem sameFile_refl (file : SnapshotFile) : sameFile file file = true :=
  sameFile_iff.mpr ⟨rfl, rfl⟩

theorem sameFile_of_same {left right base : SnapshotFile} (hleft : sameFile left base = true)
    (hright : sameFile right base = true) : sameFile left right = true := by
  rw [sameFile_iff] at hleft hright ⊢
  exact ⟨hleft.1.trans hright.1.symm, hleft.2.trans hright.2.symm⟩

/-! ## The files of a plan -/

section Classify

variable {path : Path} {base «local» incoming : SnapshotFile}

theorem path_classifyFile : (classifyFile path base «local» incoming).path = path := by
  simp only [classifyFile]
  split_ifs <;> rfl

inductive Classified (base «local» incoming : SnapshotFile) : FileStatus → Bool → Prop
  | unchanged (h : sameFile «local» incoming = true) :
      Classified base «local» incoming .unchanged true
  | ready (h : sameFile «local» incoming = false) (hlocal : sameFile «local» base = true)
      (hincoming : sameFile incoming base = false) :
      Classified base «local» incoming .ready true
  | preserved (h : sameFile «local» incoming = false) (hlocal : sameFile «local» base = false)
      (hincoming : sameFile incoming base = true) :
      Classified base «local» incoming .preserved true
  | conflict (h : sameFile «local» incoming = false) (hlocal : sameFile «local» base = false)
      (hincoming : sameFile incoming base = false) :
      Classified base «local» incoming .conflict
        («local».kind != .other && incoming.kind != .other)

/-- The list of cases is complete: what is changed on neither side is the same. -/
theorem classified : Classified base «local» incoming
    (classifyFile path base «local» incoming).status
    (classifyFile path base «local» incoming).canUseTemplate := by
  rw [classifyFile]
  cases h : sameFile «local» incoming with
  | true => exact .unchanged h
  | false =>
    cases hlocal : sameFile «local» base with
    | true =>
      cases hincoming : sameFile incoming base with
      | true =>
        rw [sameFile_of_same hlocal hincoming] at h
        cases h
      | false => exact .ready h hlocal hincoming
    | false =>
      cases hincoming : sameFile incoming base with
      | true => exact .preserved h hlocal hincoming
      | false => exact .conflict h hlocal hincoming

end Classify

/-! ## The choices -/

section Choose

variable {resolutions : Path → Option Resolution} {files : List FilePlan}

def takesTemplate (resolutions : Path → Option Resolution) (file : FilePlan) : Bool :=
  match file.status with
  | .ready => true
  | .conflict => resolutions file.path == some .template
  | _ => false

def keepsWorkspace (resolutions : Path → Option Resolution) (file : FilePlan) : Bool :=
  match file.status with
  | .preserved => true
  | .conflict => resolutions file.path == some .workspace
  | _ => false

theorem choose_eq_ok {changed kept : List Path} {chosen : List Path × List Path}
    (h : choose resolutions files changed kept = .ok chosen) :
    (∀ file ∈ files, ValidResolution resolutions file) ∧
      chosen = (changed ++ (files.filter (takesTemplate resolutions)).map FilePlan.path,
        kept ++ (files.filter (keepsWorkspace resolutions)).map FilePlan.path) := by
  induction files generalizing changed kept with
  | nil =>
    cases h
    refine ⟨?_, by simp⟩
    rintro file ⟨⟩
  | cons file files ih =>
    rw [choose] at h
    rw [List.forall_mem_cons, List.filter_cons, List.filter_cons, takesTemplate, keepsWorkspace]
    split at h
    · rename_i hstatus
      obtain ⟨hvalid, rfl⟩ := ih h
      refine ⟨⟨fun hconflict ↦ ?_, hvalid⟩, by simp [hstatus]⟩
      rw [hstatus] at hconflict
      cases hconflict
    · rename_i hstatus
      obtain ⟨hvalid, rfl⟩ := ih h
      refine ⟨⟨fun hconflict ↦ ?_, hvalid⟩, by simp [hstatus]⟩
      rw [hstatus] at hconflict
      cases hconflict
    · rename_i hstatus
      obtain ⟨hvalid, rfl⟩ := ih h
      refine ⟨⟨fun hconflict ↦ ?_, hvalid⟩, by simp [hstatus]⟩
      rw [hstatus] at hconflict
      cases hconflict
    · rename_i hstatus
      split at h
      · cases h
      · rename_i hresolution
        obtain ⟨hvalid, rfl⟩ := ih h
        exact ⟨⟨fun _ ↦ .inl hresolution, hvalid⟩, by simp [hstatus, hresolution]⟩
      · rename_i hresolution
        split_ifs at h with huse
        obtain ⟨hvalid, rfl⟩ := ih h
        exact ⟨⟨fun _ ↦ .inr ⟨hresolution, huse⟩, hvalid⟩, by simp [hstatus, hresolution]⟩

end Choose

/-! ## Snapshots of a tree -/

section Snapshots

variable {sys : Platform} {T : WorkspaceTree} {path : Path}

/-- The paths of `readManagedWorkspaceSnapshot`. -/
def listedPaths (sys : Platform) (T : WorkspaceTree) : List Path :=
  (managedRootFiles.filter fun path ↦ (readLocalFile sys T path).kind != .missing) ++
    managedTreeRoots.flatMap fun root ↦
      if (directoryPathIssue T root).isSome then []
      else (walkFiles T root).filter isManagedTemplatePath

theorem snapshot_eq : readManagedWorkspaceSnapshot sys T =
    (listedPaths sys T).map fun path ↦ (path, readLocalFile sys T path) := rfl

theorem keys_snapshot : (readManagedWorkspaceSnapshot sys T).map Prod.fst = listedPaths sys T := by
  rw [snapshot_eq, List.map_map]
  exact List.map_id _

theorem lookup_map_pair {β : Type} (f : Path → β) {paths : List Path} (h : path ∈ paths) :
    (paths.map fun p ↦ (p, f p)).lookup path = some (f path) := by
  induction paths with
  | nil => cases h
  | cons p paths ih =>
    rw [List.map_cons, List.lookup_cons]
    by_cases heq : path = p
    · rw [heq, beq_self_eq_true]
    · rw [beq_false_of_ne heq]
      exact ih ((List.mem_cons.mp h).resolve_left heq)

theorem at_of_not_mem {snapshot : Snapshot} (h : path ∉ snapshot.map Prod.fst) :
    snapshot.at path = missingFile := by
  have hnone : snapshot.lookup path = none :=
    List.lookup_eq_none_iff.mpr fun entry hentry ↦
      bne_iff_ne.mpr fun heq ↦ h (heq ▸ List.mem_map_of_mem hentry)
  rw [Snapshot.at, hnone]
  rfl

theorem at_of_mem (h : path ∈ listedPaths sys T) :
    (readManagedWorkspaceSnapshot sys T).at path = readLocalFile sys T path := by
  rw [Snapshot.at, snapshot_eq, lookup_map_pair _ h]
  rfl

theorem kind_snapshot (entry : Entry) : (entry.snapshot sys).kind ≠ .missing := by
  cases entry <;> rintro ⟨⟩

theorem leafAt_of_walked {root : Path} (h : path ∈ walkFiles T root) :
    (T.leafAt path).isSome = true :=
  Tree.mem_leaves.mp (List.mem_of_mem_filter h)

theorem kind_of_listed (h : path ∈ listedPaths sys T) :
    (readLocalFile sys T path).kind ≠ .missing := by
  rcases List.mem_append.mp h with h | h
  · exact bne_iff_ne.mp (List.mem_filter.mp h).2
  obtain ⟨root, -, h⟩ := List.mem_flatMap.mp h
  split_ifs at h
  · cases h
  obtain ⟨entry, hentry⟩ :=
    Option.isSome_iff_exists.mp (leafAt_of_walked (List.mem_of_mem_filter h))
  rw [readLocalFile_of_leafAt hentry]
  exact kind_snapshot entry

theorem listed_of_kind (h : ((readManagedWorkspaceSnapshot sys T).at path).kind ≠ .missing) :
    path ∈ listedPaths sys T := by
  by_contra hnot
  rw [at_of_not_mem (keys_snapshot ▸ hnot)] at h
  exact h rfl

theorem file_of_readLocalFile (h : (readLocalFile sys T path).kind = .file) :
    ∃ content, readLocalFile sys T path = fileContent sys content ∧
      T.leafAt path = some (.file content) := by
  rw [readLocalFile] at h ⊢
  split at h
  · cases h
  split at h
  · cases h
  · cases h
  · rename_i entry hentry
    cases entry with
    | file content => exact ⟨content, rfl, Tree.leafAt_eq_some.mpr hentry⟩
    | symlink target => cases h
    | special => cases h

theorem file_of_snapshot (h : ((readManagedWorkspaceSnapshot sys T).at path).kind = .file) :
    ∃ content, (readManagedWorkspaceSnapshot sys T).at path = fileContent sys content := by
  have hlisted : path ∈ listedPaths sys T := by
    refine listed_of_kind ?_
    rw [h]
    rintro ⟨⟩
  rw [at_of_mem hlisted] at h ⊢
  obtain ⟨content, hcontent, -⟩ := file_of_readLocalFile h
  exact ⟨content, hcontent⟩

theorem directoryPathIssue_of_node {root : Path} (hpath : T.node path ≠ none)
    (hbelow : isBelow root path = true) : directoryPathIssue T root = none := by
  rw [isBelow, Bool.and_eq_true, List.isPrefixOf_iff_prefix, bne_iff_ne] at hbelow
  have hroot := T.above root path hpath hbelow.1 hbelow.2
  have hissue : parentPathIssue T (root ++ ["__entry__"]) = none := by
    rw [parentPathIssue, List.dropLast_concat, ← List.append_nil root.inits.tail,
      issueAlong_append (directories_of_node hpath hbelow.1 hbelow.2)]
    rfl
  rw [directoryPathIssue, hissue]
  simp only [hroot, reduceCtorEq, if_false]

theorem listed_of_leafAt {entry : Entry} (hmanaged : isManagedTemplatePath path = true)
    (h : T.leafAt path = some entry) : path ∈ listedPaths sys T := by
  rw [isManagedTemplatePath, Bool.and_eq_true, Bool.or_eq_true, List.any_eq_true] at hmanaged
  rcases hmanaged.2 with hfile | ⟨root, hroot, hbelow⟩
  · refine List.mem_append_left _ (List.mem_filter.mpr ⟨List.contains_iff_mem.mp hfile, ?_⟩)
    rw [readLocalFile_of_leafAt h]
    exact bne_iff_ne.mpr (kind_snapshot entry)
  refine List.mem_append_right _ (List.mem_flatMap.mpr ⟨root, hroot, ?_⟩)
  have hnode : T.node path ≠ none := by
    rw [Tree.leafAt_eq_some.mp h]
    exact Option.some_ne_none _
  rw [directoryPathIssue_of_node hnode hbelow]
  refine List.mem_filter.mpr ⟨List.mem_filter.mpr ⟨Tree.mem_leaves.mpr ?_, hbelow⟩, ?_⟩
  · rw [h]
    rfl
  · rw [isManagedTemplatePath, hmanaged.1, Bool.true_and, Bool.or_eq_true, List.any_eq_true]
    exact .inr ⟨root, hroot, hbelow⟩

end Snapshots

/-! ## The paths of a plan -/

section Paths

variable {base «local» incoming : Snapshot} {path : Path}

theorem mem_planPaths : path ∈ planPaths base «local» incoming ↔
    isManagedTemplatePath path = true ∧ (path ∈ base.map Prod.fst ∨
      path ∈ «local».map Prod.fst ∨ path ∈ incoming.map Prod.fst) := by
  rw [planPaths, List.mem_insertionSort, List.mem_filter, List.mem_dedup, List.mem_append,
    List.mem_append, or_assoc, and_comm]

theorem nodup_planPaths : (planPaths base «local» incoming).Nodup :=
  ((List.perm_insertionSort pathLe _).nodup_iff).mpr ((List.nodup_dedup _).filter _)

theorem order_planPaths : (planPaths base «local» incoming).Pairwise
    fun earlier later ↦ ¬ later <+: earlier := by
  have hsorted : (planPaths base «local» incoming).Pairwise pathLe :=
    List.pairwise_insertionSort pathLe _
  refine (hsorted.and nodup_planPaths).imp_of_mem fun {earlier later} _ hlater h hle ↦ ?_
  exact not_pathLe_of_below (ne_nil_of_isManaged (mem_planPaths.mp hlater).1) hle h.2.symm h.1

end Paths

/-! ## Writing the chosen paths -/

section Merge

variable {sys : Platform} {T T' : WorkspaceTree} {base «local» incoming : Snapshot}
  {resolutions : Path → Option Resolution} {path : Path}

def mergeFile (sys : Platform) (T : WorkspaceTree) (base incoming : Snapshot) (path : Path) :
    FilePlan :=
  classifyFile path (base.at path) (readLocalFile sys T path) (incoming.at path)

def mergeFiles (sys : Platform) (T : WorkspaceTree) (base «local» incoming : Snapshot) :
    List FilePlan :=
  (planPaths base «local» incoming).map (mergeFile sys T base incoming)

theorem path_mergeFile : (mergeFile sys T base incoming path).path = path := path_classifyFile

variable (sys T base «local» incoming) in
theorem map_path_mergeFiles : (mergeFiles sys T base «local» incoming).map FilePlan.path =
      planPaths base «local» incoming := by
  rw [mergeFiles, List.map_map]
  refine (List.map_congr_left fun p _ ↦ ?_).trans (List.map_id _)
  exact path_mergeFile

theorem mem_chosen {choice : FilePlan → Bool} :
    path ∈ ((mergeFiles sys T base «local» incoming).filter choice).map FilePlan.path ↔
      path ∈ planPaths base «local» incoming ∧
        choice (mergeFile sys T base incoming path) = true := by
  rw [List.mem_map]
  constructor
  · rintro ⟨file, hfile, rfl⟩
    obtain ⟨hmem, hchoice⟩ := List.mem_filter.mp hfile
    obtain ⟨p, hp, rfl⟩ := List.mem_map.mp hmem
    rw [path_mergeFile]
    exact ⟨hp, hchoice⟩
  · rintro ⟨hmem, hchoice⟩
    exact ⟨_, List.mem_filter.mpr ⟨List.mem_map_of_mem hmem, hchoice⟩, path_mergeFile⟩

abbrev changedPaths (sys : Platform) (T : WorkspaceTree) (base «local» incoming : Snapshot)
    (resolutions : Path → Option Resolution) : List Path :=
  ((mergeFiles sys T base «local» incoming).filter (takesTemplate resolutions)).map FilePlan.path

theorem incoming_of_not_mem (hmanaged : isManagedTemplatePath path = true)
    (h : path ∉ planPaths base «local» incoming) :
    sameFile (incoming.at path) (base.at path) = true := by
  rw [mem_planPaths] at h
  have hbase : path ∉ base.map Prod.fst := fun hmem ↦ h ⟨hmanaged, .inl hmem⟩
  have hincoming : path ∉ incoming.map Prod.fst := fun hmem ↦ h ⟨hmanaged, .inr (.inr hmem)⟩
  rw [at_of_not_mem hbase, at_of_not_mem hincoming]
  exact sameFile_refl missingFile

theorem takesTemplate_mergeFile :
    takesTemplate resolutions (mergeFile sys T base incoming path) = true ↔
      sameFile (readLocalFile sys T path) (incoming.at path) = false ∧
        (sameFile (readLocalFile sys T path) (base.at path) = true ∨
          sameFile (incoming.at path) (base.at path) = false ∧
            resolutions path = some .template) := by
  have hcases : Classified (base.at path) (readLocalFile sys T path) (incoming.at path)
      (mergeFile sys T base incoming path).status
      (mergeFile sys T base incoming path).canUseTemplate := classified
  rw [takesTemplate, path_mergeFile]
  generalize (mergeFile sys T base incoming path).status = status at *
  generalize (mergeFile sys T base incoming path).canUseTemplate = use at *
  cases hcases with
  | unchanged h => simp [h]
  | ready h hlocal _ => simp [h, hlocal]
  | preserved h hlocal hincoming => simp [h, hlocal, hincoming]
  | conflict h hlocal hincoming => simp [h, hlocal, hincoming]

theorem keepsWorkspace_mergeFile :
    keepsWorkspace resolutions (mergeFile sys T base incoming path) = true ↔
      sameFile (readLocalFile sys T path) (incoming.at path) = false ∧
        (sameFile (incoming.at path) (base.at path) = true ∨
          sameFile (readLocalFile sys T path) (base.at path) = false ∧
            resolutions path = some .workspace) := by
  have hcases : Classified (base.at path) (readLocalFile sys T path) (incoming.at path)
      (mergeFile sys T base incoming path).status
      (mergeFile sys T base incoming path).canUseTemplate := classified
  rw [keepsWorkspace, path_mergeFile]
  generalize (mergeFile sys T base incoming path).status = status at *
  generalize (mergeFile sys T base incoming path).canUseTemplate = use at *
  cases hcases with
  | unchanged h => simp [h]
  | ready h hlocal hincoming => simp [h, hlocal, hincoming]
  | preserved h _ hincoming => simp [h, hincoming]
  | conflict h hlocal hincoming => simp [h, hlocal, hincoming]

theorem mem_changedPaths (hmanaged : isManagedTemplatePath path = true) :
    path ∈ changedPaths sys T base «local» incoming resolutions ↔
      sameFile (readLocalFile sys T path) (incoming.at path) = false ∧
        (sameFile (readLocalFile sys T path) (base.at path) = true ∨
          sameFile (incoming.at path) (base.at path) = false ∧
            resolutions path = some .template) := by
  rw [mem_chosen, takesTemplate_mergeFile, and_iff_right_iff_imp]
  rintro ⟨hne, hcase⟩
  by_contra hnot
  have hincoming := incoming_of_not_mem hmanaged hnot
  rcases hcase with hlocal | ⟨hchanges, -⟩
  · rw [sameFile_of_same hlocal hincoming] at hne
    cases hne
  · rw [hincoming] at hchanges
    cases hchanges

/-- Every conflict of a plan is resolved, and nothing stands in the way. -/
structure Chosen (sys : Platform) (T : WorkspaceTree) (base «local» incoming : Snapshot)
    (resolutions : Path → Option Resolution) : Prop where
  valid : ∀ file ∈ mergeFiles sys T base «local» incoming, ValidResolution resolutions file
  clear : Clear T (mergeFiles sys T base «local» incoming)

theorem Chosen.not_directory (h : Chosen sys T base «local» incoming resolutions)
    (hchanged : path ∈ changedPaths sys T base «local» incoming resolutions) :
    T.node path ≠ some .directory := by
  obtain ⟨hmem, htakes⟩ := mem_chosen.mp hchanged
  have hfile : mergeFile sys T base incoming path ∈ mergeFiles sys T base «local» incoming :=
    List.mem_map_of_mem hmem
  have hdirectory := h.clear.directory _ hfile
  have hconflict := h.valid _ hfile
  rw [ValidResolution, path_mergeFile] at hconflict
  rw [path_mergeFile] at hdirectory
  have hcases : Classified (base.at path) (readLocalFile sys T path) (incoming.at path)
      (mergeFile sys T base incoming path).status
      (mergeFile sys T base incoming path).canUseTemplate := classified
  rw [takesTemplate, path_mergeFile] at htakes
  generalize (mergeFile sys T base incoming path).status = status at *
  generalize (mergeFile sys T base incoming path).canUseTemplate = use at *
  cases hcases with
  | unchanged _ => cases htakes
  | ready _ _ _ => exact hdirectory rfl
  | preserved _ _ _ => cases htakes
  | conflict _ _ _ =>
    intro hnode
    rw [readLocalFile_of_directory hnode] at hconflict
    rcases hconflict rfl with hworkspace | ⟨-, huse⟩
    · rw [hworkspace] at htakes
      cases htakes
    · cases huse

theorem Chosen.apart (h : Chosen sys T base «local» incoming resolutions) :
    Apart T incoming (changedPaths sys T base «local» incoming resolutions) where
  order := by
    have hsublist : (changedPaths sys T base «local» incoming resolutions).Sublist
        (planPaths base «local» incoming) := by
      rw [← map_path_mergeFiles sys T base «local» incoming]
      exact List.filter_sublist.map _
    exact order_planPaths.sublist hsublist
  temp path hchanged := by
    obtain ⟨hmem, -⟩ := mem_chosen.mp hchanged
    obtain ⟨hfree, hnot⟩ := h.clear.temp _ (List.mem_map_of_mem hmem)
    rw [path_mergeFile] at hfree hnot
    rw [map_path_mergeFiles] at hnot
    exact ⟨hfree, fun htemp ↦ hnot (mem_chosen.mp htemp).1⟩
  below path hchanged _ q hle hne :=
    Tree.leafAt_of_none (Tree.node_below (h.not_directory hchanged) hle hne.symm)

/-- The writes of the paths that take the template. -/
structure Applied (M : Manager) (T : WorkspaceTree) (base «local» incoming : Snapshot)
    (resolutions : Path → Option Resolution) (T' : WorkspaceTree) : Prop where
  chosen : Chosen M.sys T base «local» incoming resolutions
  writes : writeAll M T incoming (changedPaths M.sys T base «local» incoming resolutions) =
    (T', none)

variable {M : Manager}

theorem Applied.leafAt_of_changed (h : Applied M T base «local» incoming resolutions T')
    (hchanged : path ∈ changedPaths M.sys T base «local» incoming resolutions) :
    T'.leafAt path = (incoming.at path).entry := by
  rw [leafAt_writeAll h.writes h.chosen.apart, if_pos hchanged]

theorem Applied.leafAt_of_kept (h : Applied M T base «local» incoming resolutions T')
    (hkept : path ∉ changedPaths M.sys T base «local» incoming resolutions) :
    T'.leafAt path = T.leafAt path := by
  rw [leafAt_writeAll h.writes h.chosen.apart, if_neg hkept]

theorem Applied.holds (h : Applied M T base «local» incoming resolutions T')
    (hfile : (incoming.at path).kind = .file → ∃ content,
      incoming.at path = fileContent M.sys content)
    (hchanged : path ∈ changedPaths M.sys T base «local» incoming resolutions) :
    Holds T' path (incoming.at path) := by
  have hleaf := h.leafAt_of_changed hchanged
  have hother := kind_writeAll h.writes path hchanged
  rw [Holds]
  cases hkind : (incoming.at path).kind with
  | missing =>
    rw [hleaf, SnapshotFile.entry, hkind]
    rfl
  | file =>
    obtain ⟨content, hcontent⟩ := hfile hkind
    rw [hcontent] at hleaf ⊢
    exact ⟨content, rfl, hleaf⟩
  | other => exact hother hkind

theorem Applied.mergedAt (h : Applied M T base «local» incoming resolutions T')
    (hfile : (incoming.at path).kind = .file → ∃ content,
      incoming.at path = fileContent M.sys content)
    (hmanaged : isManagedTemplatePath path = true) :
    MergedAt M.sys base incoming resolutions T T' path where
  common hsame := by
    refine h.leafAt_of_kept fun hchanged ↦ ?_
    rw [((mem_changedPaths hmanaged).mp hchanged).1] at hsame
    cases hsame
  taken hne hcase := h.holds hfile ((mem_changedPaths hmanaged).mpr ⟨hne, hcase⟩)
  kept hne hcase := by
    refine h.leafAt_of_kept fun hchanged ↦ ?_
    obtain ⟨-, hlocal | ⟨hincoming, htemplate⟩⟩ := (mem_changedPaths hmanaged).mp hchanged
    · rcases hcase with hincoming | ⟨hchanges, -⟩
      · rw [sameFile_of_same hlocal hincoming] at hne
        cases hne
      · rw [hlocal] at hchanges
        cases hchanges
    · rcases hcase with hsame | ⟨-, hworkspace⟩
      · rw [hincoming] at hsame
        cases hsame
      · rw [htemplate] at hworkspace
        cases hworkspace
  resolved hne hlocal hincoming := by
    have hmem : path ∈ planPaths base «local» incoming := by
      by_contra hnot
      rw [incoming_of_not_mem hmanaged hnot] at hincoming
      cases hincoming
    have hvalid := h.chosen.valid _ (List.mem_map_of_mem hmem)
    have hconflict : (mergeFile M.sys T base incoming path).status = .conflict := by
      rw [mergeFile, classifyFile, hne, hlocal, hincoming]
      rfl
    intro hnone
    rw [ValidResolution, path_mergeFile, hnone] at hvalid
    rcases hvalid hconflict with hworkspace | ⟨htemplate, -⟩
    · cases hworkspace
    · cases htemplate

/-! ## The next preview -/

theorem rootFile_not_above {file : Path} (hfile : file ∈ managedRootFiles)
    (hmanaged : isManagedTemplatePath path = true) : ¬ file <+: path.dropLast := by
  rw [isManagedTemplatePath, Bool.and_eq_true, Bool.or_eq_true, List.any_eq_true] at hmanaged
  intro hle
  rcases hmanaged.2 with hroot | ⟨root, hroot, hbelow⟩
  · have hpath : path ∈ managedRootFiles := List.contains_iff_mem.mp hroot
    have hnil : path.dropLast = [] := by
      revert hpath
      simp only [managedRootFiles, List.mem_cons, List.not_mem_nil, or_false]
      rintro (rfl | rfl | rfl) <;> rfl
    rw [hnil, List.prefix_nil] at hle
    rw [hle] at hfile
    simp [managedRootFiles] at hfile
  · rw [isBelow, Bool.and_eq_true, List.isPrefixOf_iff_prefix] at hbelow
    obtain ⟨rest, rfl⟩ := hbelow.1
    obtain ⟨tail, htail⟩ := hle.trans (List.dropLast_prefix _)
    -- the first names differ
    have hhead := congrArg List.head? htail
    simp only [managedRootFiles, managedTreeRoots, List.mem_cons, List.not_mem_nil,
      or_false] at hfile hroot
    rcases hfile with rfl | rfl | rfl <;> rcases hroot with rfl | rfl | rfl <;> simp at hhead

theorem Applied.came_of_listed (h : Applied M T base «local» incoming resolutions T')
    (hchanged : path ∈ changedPaths M.sys T base «local» incoming resolutions)
    (hlisted : path ∈ listedPaths M.sys T') : (incoming.at path).kind = .file := by
  have hmanaged := (mem_planPaths.mp (mem_chosen.mp hchanged).1).1
  have hleaf := h.leafAt_of_changed hchanged
  cases hkind : (incoming.at path).kind with
  | file => rfl
  | other => exact absurd hkind (kind_writeAll h.writes path hchanged)
  | missing =>
    rw [SnapshotFile.entry, hkind] at hleaf
    rcases List.mem_append.mp hlisted with hroot | hwalked
    · obtain ⟨hroot, hpresent⟩ := List.mem_filter.mp hroot
      -- a root file that is not missing and holds nothing is a directory
      have hnil : path.dropLast = [] := by
        revert hroot
        simp only [managedRootFiles, List.mem_cons, List.not_mem_nil, or_false]
        rintro (rfl | rfl | rfl) <;> rfl
      have hdirectory : T'.node path = some .directory := by
        rw [readLocalFile, parentPathIssue, hnil] at hpresent
        cases hnode : T'.node path with
        | none =>
          rw [hnode] at hpresent
          cases hpresent
        | some node =>
          cases node with
          | directory => rfl
          | leaf entry =>
            rw [Tree.leafAt_eq_some.mpr hnode] at hleaf
            cases hleaf
      rcases directory_writeAll h.writes h.chosen.apart hdirectory with hbefore | ⟨p, hp, hle⟩
      · exact absurd hbefore (h.chosen.not_directory hchanged)
      · exact absurd hle (rootFile_not_above hroot (mem_planPaths.mp (mem_chosen.mp hp).1).1)
    · obtain ⟨root, -, hwalked⟩ := List.mem_flatMap.mp hwalked
      split_ifs at hwalked
      · cases hwalked
      have hsome := leafAt_of_walked (List.mem_of_mem_filter hwalked)
      rw [hleaf] at hsome
      cases hsome

variable {Tin : WorkspaceTree}

/-- **What the next preview shows**: no path is ready or in conflict, and what took the template is
unchanged. -/
theorem Applied.preview
    (h : Applied M T base «local» (readManagedWorkspaceSnapshot M.sys Tin) resolutions T')
    {file : FilePlan} (hfile : file ∈ mergeFiles M.sys T' (readManagedWorkspaceSnapshot M.sys Tin)
      (readManagedWorkspaceSnapshot M.sys T') (readManagedWorkspaceSnapshot M.sys Tin)) :
    file.status = .unchanged ∨ file.status = .preserved ∧
      file.path ∉ changedPaths M.sys T base «local»
        (readManagedWorkspaceSnapshot M.sys Tin) resolutions := by
  obtain ⟨path, hpath, rfl⟩ := List.mem_map.mp hfile
  rw [path_mergeFile]
  have hself := sameFile_refl ((readManagedWorkspaceSnapshot M.sys Tin).at path)
  have hcases : Classified ((readManagedWorkspaceSnapshot M.sys Tin).at path)
      (readLocalFile M.sys T' path) ((readManagedWorkspaceSnapshot M.sys Tin).at path)
      (mergeFile M.sys T' (readManagedWorkspaceSnapshot M.sys Tin)
        (readManagedWorkspaceSnapshot M.sys Tin) path).status
      (mergeFile M.sys T' (readManagedWorkspaceSnapshot M.sys Tin)
        (readManagedWorkspaceSnapshot M.sys Tin) path).canUseTemplate := classified
  generalize (mergeFile M.sys T' (readManagedWorkspaceSnapshot M.sys Tin)
    (readManagedWorkspaceSnapshot M.sys Tin) path).status = status at *
  generalize (mergeFile M.sys T' (readManagedWorkspaceSnapshot M.sys Tin)
    (readManagedWorkspaceSnapshot M.sys Tin) path).canUseTemplate = use at *
  cases hcases with
  | unchanged _ => exact .inl rfl
  | ready _ _ hincoming =>
    rw [hself] at hincoming
    cases hincoming
  | conflict _ _ hincoming =>
    rw [hself] at hincoming
    cases hincoming
  | preserved hne _ _ =>
    refine .inr ⟨rfl, fun hchanged ↦ ?_⟩
    have hkind : ((readManagedWorkspaceSnapshot M.sys Tin).at path).kind = .file := by
      have hlisted := (mem_planPaths.mp hpath).2
      rw [keys_snapshot, keys_snapshot] at hlisted
      by_cases hcame : path ∈ listedPaths M.sys Tin
      · have hpresent := kind_of_listed hcame
        have hother := kind_writeAll h.writes path hchanged
        rw [at_of_mem hcame] at hother ⊢
        cases hkind : (readLocalFile M.sys Tin path).kind with
        | missing => exact absurd hkind hpresent
        | file => rfl
        | other => exact absurd hkind hother
      · exact h.came_of_listed hchanged ((hlisted.resolve_left hcame).resolve_right hcame)
    obtain ⟨content, hcontent⟩ := file_of_snapshot hkind
    have hleaf : T'.leafAt path = some (.file content) := by
      rw [h.leafAt_of_changed hchanged, hcontent]
      rfl
    rw [hcontent, readLocalFile_of_leafAt hleaf] at hne
    rw [Entry.snapshot, sameFile_refl] at hne
    cases hne

/-- **What was kept** and is there, or came in as a file, is preserved in the next preview. -/
theorem Applied.preserved
    (h : Applied M T base «local» (readManagedWorkspaceSnapshot M.sys Tin) resolutions T')
    (hkept : path ∈ ((mergeFiles M.sys T base «local» (readManagedWorkspaceSnapshot M.sys Tin)).filter
      (keepsWorkspace resolutions)).map FilePlan.path)
    (hthere : T.leafAt path ≠ none ∨
      ((readManagedWorkspaceSnapshot M.sys Tin).at path).kind = .file) :
    ∃ file ∈ mergeFiles M.sys T' (readManagedWorkspaceSnapshot M.sys Tin)
        (readManagedWorkspaceSnapshot M.sys T') (readManagedWorkspaceSnapshot M.sys Tin),
      file.path = path ∧ file.status = .preserved := by
  obtain ⟨hmem, hkeeps⟩ := mem_chosen.mp hkept
  have hmanaged := (mem_planPaths.mp hmem).1
  obtain ⟨hne, hcase⟩ := keepsWorkspace_mergeFile.mp hkeeps
  have hleaf := (h.mergedAt file_of_snapshot hmanaged).kept hne hcase
  have hlisted : path ∈ planPaths (readManagedWorkspaceSnapshot M.sys Tin)
      (readManagedWorkspaceSnapshot M.sys T') (readManagedWorkspaceSnapshot M.sys Tin) := by
    rw [mem_planPaths, keys_snapshot, keys_snapshot]
    refine ⟨hmanaged, ?_⟩
    rcases hthere with hthere | hcame
    · obtain ⟨entry, hentry⟩ := Option.ne_none_iff_exists'.mp hthere
      exact .inr (.inl (listed_of_leafAt hmanaged (hleaf.trans hentry)))
    refine .inl (listed_of_kind ?_)
    rw [hcame]
    rintro ⟨⟩
  have hdiffers : sameFile (readLocalFile M.sys T' path)
      ((readManagedWorkspaceSnapshot M.sys Tin).at path) = false := by
    cases hentry : T.leafAt path with
    | some entry =>
      rw [readLocalFile_of_leafAt (hleaf.trans hentry)]
      rwa [readLocalFile_of_leafAt hentry] at hne
    | none =>
      have hcame := hthere.resolve_left fun hsome ↦ hsome hentry
      rw [Bool.eq_false_iff, ne_eq, sameFile_iff, hcame]
      rintro ⟨hkind, -⟩
      obtain ⟨content, -, hfile⟩ := file_of_readLocalFile hkind
      rw [hleaf, hentry] at hfile
      cases hfile
  refine ⟨_, List.mem_map_of_mem hlisted, path_mergeFile, ?_⟩
  rw [mergeFile, classifyFile, hdiffers, sameFile_refl]
  rfl

end Merge

/-! ## The upgrade -/

section Success

variable {git : GitAnswers} {workspace : WorkspaceMeta} {template : TemplateMeta}
  {input : ApplyInput} {desk desk' : Desk} {result : UpgradeResult} {before : UpgradePlan}
  {base incoming : Snapshot} {source : PlanSource}

structure Landed (before : UpgradePlan) (incoming : Snapshot) (desk' : Desk) : Prop where
  baseline : desk'.baseline = some incoming
  state : desk'.state = some ⟨before.template, before.toVersion⟩
  transaction : desk'.transaction = none

theorem attempt_eq_ok {changed : List Path} {commit : String}
    (h : attempt M git desk before incoming changed = (desk', .ok commit)) :
    writeAll M desk.tree incoming changed = (desk'.tree, none) ∧ Landed before incoming desk' := by
  rw [attempt] at h
  split at h
  · cases h
  rename_i tree hwrites
  simp only at h
  split at h
  · cases h
  split at h
  · cases h
  split at h
  · cases h
  · cases h
    exact ⟨hwrites, rfl, rfl, rfl⟩

theorem applyRecovered_eq_ok
    (hplan : buildPlan M workspace desk template (materializeTemplate M template workspace.id) =
      .ok before)
    (h : applyRecovered M git workspace template input desk = (.ok result, desk')) :
    choose input.resolutions before.files [] [] = .ok (result.changedPaths, result.keptPaths) ∧
      writeAll M desk.tree (materializeTemplate M template workspace.id) result.changedPaths =
        (desk'.tree, none) ∧
      Landed before (materializeTemplate M template workspace.id) desk' := by
  rw [applyRecovered, hplan] at h
  simp only at h
  by_cases hblocked : before.blockers ≠ []
  · rw [if_pos hblocked] at h
    cases h
  by_cases hstale : before.planDigest ≠ input.planDigest
  · rw [if_neg hblocked, if_pos hstale] at h
    cases h
  by_cases hcurrent : before.fromVersion = before.toVersion
  · rw [if_neg hblocked, if_neg hstale, if_pos hcurrent] at h
    cases h
  rw [if_neg hblocked, if_neg hstale, if_neg hcurrent] at h
  split at h
  · cases h
  rename_i changed kept hchoose
  split at h
  · rename_i hattempt
    cases h
    obtain ⟨hwrites, hlanded⟩ := attempt_eq_ok hattempt
    exact ⟨hchoose, hwrites, hlanded⟩
  · cases h

/-- **What a stale digest or an open conflict leads to**: an error, and nothing else. -/
theorem applyRecovered_refuses
    (hplan : buildPlan M workspace desk template (materializeTemplate M template workspace.id) =
      .ok before)
    (h : before.planDigest ≠ input.planDigest ∨
      ∃ file ∈ before.files, ¬ ValidResolution input.resolutions file) :
    ∃ error, applyRecovered M git workspace template input desk = (.error error, desk) := by
  rw [applyRecovered, hplan]
  simp only
  by_cases hblocked : before.blockers ≠ []
  · rw [if_pos hblocked]
    exact ⟨_, rfl⟩
  by_cases hstale : before.planDigest ≠ input.planDigest
  · rw [if_neg hblocked, if_pos hstale]
    exact ⟨_, rfl⟩
  by_cases hcurrent : before.fromVersion = before.toVersion
  · rw [if_neg hblocked, if_neg hstale, if_pos hcurrent]
    exact ⟨_, rfl⟩
  rw [if_neg hblocked, if_neg hstale, if_neg hcurrent]
  obtain ⟨file, hfile, hinvalid⟩ := h.resolve_left hstale
  cases hchoose : choose input.resolutions before.files [] [] with
  | error error => exact ⟨error, rfl⟩
  | ok chosen => exact absurd ((choose_eq_ok hchoose).1 file hfile) hinvalid

theorem buildPlan_eq_ok (hbase : baselineOf M desk template = .ok (base, source))
    (hplan : buildPlan M workspace desk template incoming = .ok before) :
    before.files = mergeFiles M.sys desk.tree base (readManagedWorkspaceSnapshot M.sys desk.tree)
        incoming ∧
      before.template = template.name ∧ before.toVersion = template.version := by
  rw [buildPlan, hbase] at hplan
  cases hplan
  exact ⟨rfl, rfl, rfl⟩

theorem plan_of_landed (hlanded : Landed before (materializeTemplate M template workspace.id) desk')
    (htemplate : resolveUpgradeableTemplate M workspace = .ok template)
    (hname : before.template = template.name) :
    ∃ after : UpgradePlan, plan M (some workspace) desk' = (.ok after, desk') ∧
      after.files = mergeFiles M.sys desk'.tree (materializeTemplate M template workspace.id)
        (readManagedWorkspaceSnapshot M.sys desk'.tree)
        (materializeTemplate M template workspace.id) := by
  have hbase : baselineOf M desk' template =
      .ok (materializeTemplate M template workspace.id, .recordedBaseline) := by
    have hstate : stateOf desk' template = some ⟨before.template, before.toVersion⟩ := by
      rw [stateOf, hlanded.state, Option.filter_some, if_pos (beq_iff_eq.mpr hname)]
    rw [baselineOf, hstate, Option.bind_some, hlanded.baseline]
  have hrecover : recoverWorkspace M desk' = (desk', none) := by
    rw [recoverWorkspace, hlanded.transaction]
  have hbuilt : ∃ after, buildPlan M workspace desk' template
      (materializeTemplate M template workspace.id) = .ok after := by
    rw [buildPlan, hbase]
    exact ⟨_, rfl⟩
  obtain ⟨after, hafter⟩ := hbuilt
  refine ⟨after, ?_, (buildPlan_eq_ok hbase hafter).1⟩
  rw [plan]
  simp only [htemplate, hrecover, hafter]

/-- **What an upgrade makes of a workspace.** -/
structure Upgraded (M : Manager) (workspace : WorkspaceMeta) (template : TemplateMeta)
    (base : Snapshot) (input : ApplyInput) (desk desk' : Desk) (result : UpgradeResult) :
    Prop where
  managed : ∀ path, isManagedTemplatePath path = true →
    MergedAt M.sys base (materializeTemplate M template workspace.id) input.resolutions desk.tree
      desk'.tree path
  unmanaged : ∀ path, isManagedTemplatePath path = false →
    desk'.tree.leafAt path = desk.tree.leafAt path
  baseline : desk'.baseline = some (materializeTemplate M template workspace.id)
  state : desk'.state = some ⟨template.name, template.version⟩
  /-- The next preview has nothing that is ready or in conflict, and preserves what was kept. -/
  preview : ∃ after : UpgradePlan, plan M (some workspace) desk' = (.ok after, desk') ∧
    (∀ file ∈ after.files, file.status = .unchanged ∨
      file.status = .preserved ∧ file.path ∉ result.changedPaths) ∧
    ∀ path ∈ result.keptPaths, desk.tree.leafAt path ≠ none ∨
        ((materializeTemplate M template workspace.id).at path).kind = .file →
      ∃ file ∈ after.files, file.path = path ∧ file.status = .preserved

theorem upgraded (htemplate : resolveUpgradeableTemplate M workspace = .ok template)
    (hbase : baselineOf M desk template = .ok (base, source))
    (hplan : buildPlan M workspace desk template (materializeTemplate M template workspace.id) =
      .ok before)
    (hclear : Clear desk.tree before.files)
    (h : applyRecovered M git workspace template input desk = (.ok result, desk')) :
    Upgraded M workspace template base input desk desk' result := by
  obtain ⟨hchoose, hwrites, hlanded⟩ := applyRecovered_eq_ok hplan h
  obtain ⟨hvalid, hpaths⟩ := choose_eq_ok hchoose
  obtain ⟨hfiles, hname, hversion⟩ := buildPlan_eq_ok hbase hplan
  obtain ⟨hchanged, hkept⟩ := Prod.mk.inj hpaths
  rw [hfiles] at hvalid hchanged hkept hclear
  rw [List.nil_append] at hchanged hkept
  rw [hchanged] at hwrites
  have happlied : Applied M desk.tree base (readManagedWorkspaceSnapshot M.sys desk.tree)
      (readManagedWorkspaceSnapshot M.sys (M.materialized template workspace.id))
      input.resolutions desk'.tree := ⟨⟨hvalid, hclear⟩, hwrites⟩
  refine ⟨fun path hmanaged ↦ happlied.mergedAt file_of_snapshot hmanaged,
    fun path hunmanaged ↦ happlied.leafAt_of_kept fun hmem ↦ ?_, hlanded.baseline, ?_, ?_⟩
  · rw [(mem_planPaths.mp (mem_chosen.mp hmem).1).1] at hunmanaged
    cases hunmanaged
  · rw [hlanded.state, hname, hversion]
  · obtain ⟨after, hafter, hafterFiles⟩ := plan_of_landed hlanded htemplate hname
    refine ⟨after, hafter, fun file hfile ↦ ?_, fun path hpath hthere ↦ ?_⟩
    · rw [hafterFiles] at hfile
      rw [hchanged]
      exact happlied.preview hfile
    rw [hafterFiles]
    rw [hkept] at hpath
    exact happlied.preserved hpath hthere

/-- **The merge of a template upgrade is exact**, from where the workspace has been recovered: an
upgrade that succeeds leaves at every managed path what the merge says, and elsewhere what was
there; a stale digest and an open conflict change nothing. -/
theorem template_merge {desk₀ : Desk}
    (htemplate : resolveUpgradeableTemplate M workspace = .ok template)
    (hrecover : recoverWorkspace M desk₀ = (desk, none))
    (hbase : baselineOf M desk template = .ok (base, source))
    (hplan : buildPlan M workspace desk template (materializeTemplate M template workspace.id) =
      .ok before) :
    (∀ result desk', applyLocked M git (some workspace) input desk₀ = (.ok result, desk') →
      Clear desk.tree before.files → Upgraded M workspace template base input desk desk' result) ∧
    ((before.planDigest ≠ input.planDigest ∨
        ∃ file ∈ before.files, ¬ ValidResolution input.resolutions file) →
      ∃ error, applyLocked M git (some workspace) input desk₀ = (.error error, desk)) := by
  have happly : applyLocked M git (some workspace) input desk₀ =
      applyRecovered M git workspace template input desk := by
    simp only [applyLocked, htemplate, hrecover]
  rw [happly]
  exact ⟨fun result desk' h hclear ↦ upgraded htemplate hbase hplan hclear h,
    applyRecovered_refuses hplan⟩

end Success

/-! ## A file that becomes a directory -/

def treeOf (files : List (Path × String)) : WorkspaceTree :=
  files.foldl (fun T file ↦
    ((T.mkdirs file.1.dropLast).bind fun T₁ ↦ T₁.put file.1 (.file file.2)).getD T) Tree.empty

def samplePlatform : Platform where
  sha256 := id
  writeThrough T _ _ := (T, some "EIO: i/o error, write")

def skillFile : Path := [".agents", "skills", "alice"]

def sampleManager : Manager where
  sys := samplePlatform
  templates _ := some ⟨"chat", none, "2.0.0", some "managed-context"⟩
  materialized _ _ := treeOf [(skillFile ++ ["SKILL.md"], "skill v2")]
  digestPlan _ := "digest"
  busy _ := false

def sampleWorkspace : WorkspaceMeta := ⟨"chat-old", some "chat", some "1.0.0"⟩

def sampleDesk : Desk where
  tree := treeOf [(skillFile, "skill v1")]
  state := some ⟨"chat", "1.0.0"⟩
  baseline := some [(skillFile, fileContent samplePlatform "skill v1")]

def sampleInput : ApplyInput where
  planDigest := "digest"
  resolutions path := if path = skillFile ++ ["SKILL.md"] then some .workspace else none

def sampleGit : GitAnswers := ⟨none, none, .ok "0a1b2c3d"⟩

def sampleUpgrade : Except UpgradeError UpgradeResult × Desk :=
  applyLocked sampleManager sampleGit (some sampleWorkspace) sampleInput sampleDesk

theorem sampleUpgrade_ok : sampleUpgrade.1 = .ok
    ⟨"chat-old", "1.0.0", "2.0.0", "0a1b2c3d", [skillFile], [skillFile ++ ["SKILL.md"]]⟩ := by
  decide +kernel

/-- The upgrade of the sample leaves nothing where the file was, and preserves what is below. -/
theorem template_merge_sample : ∃ base before result, baselineOf sampleManager sampleDesk
      ⟨"chat", none, "2.0.0", some "managed-context"⟩ = .ok (base, .recordedBaseline) ∧
    Clear sampleDesk.tree before ∧
    Upgraded sampleManager sampleWorkspace ⟨"chat", none, "2.0.0", some "managed-context"⟩ base
      sampleInput sampleDesk sampleUpgrade.2 result := by
  have hbase : baselineOf sampleManager sampleDesk
      ⟨"chat", none, "2.0.0", some "managed-context"⟩ = .ok (_, _) := rfl
  obtain ⟨before, hplan⟩ : ∃ before, buildPlan sampleManager sampleWorkspace sampleDesk
      ⟨"chat", none, "2.0.0", some "managed-context"⟩
      (materializeTemplate sampleManager ⟨"chat", none, "2.0.0", some "managed-context"⟩
        "chat-old") = .ok before := by
    rw [buildPlan, hbase]
    exact ⟨_, rfl⟩
  have hclear : Clear sampleDesk.tree before.files := by
    rw [(buildPlan_eq_ok hbase hplan).1]
    constructor <;> decide +kernel
  have hrecover : recoverWorkspace sampleManager sampleDesk = (sampleDesk, none) := rfl
  exact ⟨_, before.files, _, hbase, hclear,
    (template_merge rfl hrecover hbase hplan).1 _ _ (Prod.ext sampleUpgrade_ok rfl) hclear⟩

/-- **What is kept is not always read as before**: a path below a file that is removed was
unreadable, and is missing. -/
theorem kept_entry_changes : ¬ ∀ (M : Manager) (git : GitAnswers) (workspace : WorkspaceMeta)
    (template : TemplateMeta) (input : ApplyInput) (desk desk' : Desk) (base : Snapshot)
    (source : PlanSource) (result : UpgradeResult), desk.transaction = none →
    resolveUpgradeableTemplate M workspace = .ok template →
    baselineOf M desk template = .ok (base, source) →
    applyLocked M git (some workspace) input desk = (.ok result, desk') →
    ∀ path, isManagedTemplatePath path = true → input.resolutions path = some .workspace →
      sameFile (readLocalFile M.sys desk.tree path)
        ((materializeTemplate M template workspace.id).at path) = false →
      sameFile (readLocalFile M.sys desk.tree path) (base.at path) = false →
        readLocalFile M.sys desk'.tree path = readLocalFile M.sys desk.tree path := by
  intro hall
  have hsame := hall sampleManager sampleGit sampleWorkspace _ sampleInput sampleDesk
    sampleUpgrade.2 _ _ _ rfl rfl rfl (Prod.ext sampleUpgrade_ok rfl) (skillFile ++ ["SKILL.md"])
    (by decide +kernel) (by decide +kernel) (by decide +kernel) (by decide +kernel)
  exact absurd hsame (by decide +kernel)

end OpenAlice.Workspaces.Upgrade
