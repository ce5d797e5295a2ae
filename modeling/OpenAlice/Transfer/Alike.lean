import OpenAlice.Data.Results
import OpenAlice.Transfer.Writer

/-!
# Homes that differ in their secrets

Two homes are alike when they differ in secret values only: in the files that hold nothing
else, in the credentials of `ai-provider-manager.json` and in the provider keys of
`market-data.json`.  The walk finds the same in both, but for the size and the digest of the
last two files and the bytes of what is excluded as machine-local or as a credential: `erase`
takes these away (`walkPortableTree_alike`).

Every exclusion of another kind lies where no secret can be (`Plain`), so that its bytes are
the same.
-/

namespace OpenAlice.Transfer

open OpenAlice.Data OpenAlice.Core

/-! ## Alike -/

def IsSecretFile (path : Path) : Prop :=
  path = ["provider-keys.json"] ∨ path = ["sealing.key"] ∨ path = configPath "accounts.json" ∨
    path = configPath "connectors.json"

section Relation

variable (codec : Codec)

/-- Two texts whose values are the same without a property. -/
def StripAlike (key : String) (left right : Bytes) : Prop :=
  ∃ l r, codec.parse (codec.decode left) = .ok l ∧ codec.parse (codec.decode right) = .ok r ∧
    strip key l = strip key r

/-- What a file may hold in one home and in the other. -/
inductive ContentAlike (path : Path) : Bytes → Bytes → Prop
  | same (bytes : Bytes) : ContentAlike path bytes bytes
  | secret {left right : Bytes} (h : IsSecretFile path) : ContentAlike path left right
  | credentials {left right : Bytes} (hpath : path = aiProviderFile)
      (h : StripAlike codec "credentials" left right) : ContentAlike path left right
  | providerKeys {left right : Bytes} (hpath : path = marketDataFile)
      (h : StripAlike codec "providerKeys" left right) : ContentAlike path left right

mutual

inductive NodeAlike : Path → Node → Node → Prop
  | file {path : Path} {mode : Nat} {left right : Bytes}
      (h : ContentAlike codec path left right) :
      NodeAlike path (.file mode left) (.file mode right)
  | directory {path : Path} {mode : Nat} {left right : Children}
      (h : ChildrenAlike path left right) :
      NodeAlike path (.directory mode left) (.directory mode right)
  | symlink (path : Path) (mode : Nat) (target : String) :
      NodeAlike path (.symlink mode target) (.symlink mode target)
  | other (path : Path) : NodeAlike path .other .other

inductive ChildrenAlike : Path → Children → Children → Prop
  | nil (path : Path) : ChildrenAlike path .nil .nil
  | cons {path : Path} {name : String} {left right : Node} {lefts rights : Children}
      (node : NodeAlike (path ++ [name]) left right) (rest : ChildrenAlike path lefts rights) :
      ChildrenAlike path (.cons name left lefts) (.cons name right rights)

end

end Relation

variable {codec : Codec}

mutual

theorem NodeAlike.measure {path : Path} {left right : Node} :
    NodeAlike codec path left right → (measureTree left).1 = (measureTree right).1
  | .file _ => rfl
  | .directory h => h.measure
  | .symlink _ _ _ => rfl
  | .other _ => rfl

theorem ChildrenAlike.measure {path : Path} {left right : Children} :
    ChildrenAlike codec path left right → (measureChildren left).1 = (measureChildren right).1
  | .nil _ => rfl
  | .cons node rest => by
      rw [measureChildren, measureChildren, node.measure, rest.measure]

end

/-! ## Where no secret can be -/

def Plain (path : Path) : Prop :=
  ∀ rest, ¬ IsSecretFile (path ++ rest) ∧ path ++ rest ≠ aiProviderFile ∧
    path ++ rest ≠ marketDataFile

namespace Plain

variable {path : Path}

theorem child (h : Plain path) (name : String) : Plain (path ++ [name]) := by
  intro rest
  rw [List.append_assoc]
  exact h ([name] ++ rest)

theorem content (h : Plain path) {left right : Bytes} (alike : ContentAlike codec path left right) :
    left = right := by
  have hself := h []
  rw [List.append_nil] at hself
  cases alike with
  | same => rfl
  | secret hsecret => exact absurd hsecret hself.1
  | credentials hpath _ => exact absurd hpath hself.2.1
  | providerKeys hpath _ => exact absurd hpath hself.2.2

theorem of_head {first : String} (rest : Path) (hkeys : first ≠ "provider-keys.json")
    (hsealing : first ≠ "sealing.key") (hdata : first ≠ "data") : Plain (first :: rest) := by
  intro below
  simp [IsSecretFile, aiProviderFile, marketDataFile, configPath, hkeys, hsealing, hdata]

theorem control (rest : Path) : Plain ("data" :: "control" :: rest) := by
  intro below
  simp [IsSecretFile, aiProviderFile, marketDataFile, configPath]

end Plain

mutual

theorem NodeAlike.eq_of_plain {path : Path} {left right : Node} (h : Plain path) :
    NodeAlike codec path left right → left = right
  | .file alike => by rw [h.content alike]
  | .directory alike => by rw [alike.eq_of_plain h]
  | .symlink _ _ _ => rfl
  | .other _ => rfl

theorem ChildrenAlike.eq_of_plain {path : Path} {left right : Children} (h : Plain path) :
    ChildrenAlike codec path left right → left = right
  | .nil _ => rfl
  | .cons node rest => by rw [node.eq_of_plain (h.child _), rest.eq_of_plain h]

end

theorem plain_of_excluded {path : Path} {reason : ExclusionReason}
    (h : exclusionReason path = some reason) (hlocal : reason ≠ .machineLocal)
    (hcredential : reason ≠ .credentialPlane) : Plain path := by
  rw [exclusionReason.eq_def] at h
  split at h
  · exact .of_head _ (by decide) (by decide) (by decide)
  · exact .of_head _ (by decide) (by decide) (by decide)
  · exact .of_head _ (by decide) (by decide) (by decide)
  · exact absurd (Option.some.inj h).symm hlocal
  · exact absurd (Option.some.inj h).symm hcredential
  · exact .of_head _ (by decide) (by decide) (by decide)
  · split_ifs at h
    · exact absurd (Option.some.inj h).symm hcredential
    · exact absurd (Option.some.inj h).symm hlocal
  · exact .control _
  · cases h

theorem plain_of_dossier {path root gitPath : Path}
    (h : workspaceSessionDossier path = some (root, gitPath)) : Plain path := by
  rw [workspaceSessionDossier.eq_def] at h
  split at h
  · exact .of_head _ (by decide) (by decide) (by decide)
  · cases h

theorem IsSecretFile.excluded {path : Path} (h : IsSecretFile path) :
    exclusionReason path ≠ none := by
  rcases h with rfl | rfl | rfl | rfl <;> simp [exclusionReason, configPath]

/-! ## What the walk finds -/

/-- An entry without the size and the digest of a file that held secrets. -/
def Entry.erase (entry : Entry) : Entry :=
  if entry.transform = some .stripAiCredentials ∨
      entry.transform = some .stripMarketProviderKeys then
    { entry with sourceSize := none, sourceSha256 := none }
  else entry

def Excluded.erase (excluded : Excluded) : Excluded :=
  if excluded.reason = .machineLocal ∨ excluded.reason = .credentialPlane then
    { excluded with bytes := 0 }
  else excluded

def Walked.erase (walked : Walked) : Walked :=
  ⟨walked.entries.map Entry.erase, walked.exclusions.map Excluded.erase, walked.scheduledIssues⟩

theorem Walked.erase_append (first second : Walked) :
    (first.append second).erase = first.erase.append second.erase := by
  simp only [Walked.erase, Walked.append, List.map_append]

section Gate

variable {context : WalkContext} {path : Path}

theorem exclusionReason_of_gate {reason : ExclusionReason}
    (h : gate context path = .excluded reason) : exclusionReason path = some reason := by
  rw [gate] at h
  split_ifs at h
  split at h
  · rename_i found
    cases h
    exact found
  split at h
  · split_ifs at h
  · cases h

theorem exclusionReason_of_portable (h : gate context path = .portable) :
    exclusionReason path = none := by
  rw [gate] at h
  split_ifs at h
  split at h
  · cases h
  · assumption

theorem dossier_of_gate (h : gate context path = .untracked) :
    ∃ root gitPath, workspaceSessionDossier path = some (root, gitPath) := by
  rw [gate] at h
  split_ifs at h
  split at h
  · cases h
  split at h
  · exact ⟨_, _, ‹_›⟩
  · cases h

theorem pastGate_alike {left right : Node} {walkLeft walkRight : Except TransferError Walked}
    (alike : NodeAlike codec path left right)
    (h : gate context path = .portable → walkLeft.map Walked.erase = walkRight.map Walked.erase) :
    (pastGate context path left walkLeft).map Walked.erase =
      (pastGate context path right walkRight).map Walked.erase := by
  cases hgate : gate context path with
  | refused error => rw [pastGate.eq_def, pastGate.eq_def, hgate]
  | portable =>
    rw [pastGate.eq_def, pastGate.eq_def, hgate]
    exact h hgate
  | excluded reason =>
    by_cases hsecret : reason = .machineLocal ∨ reason = .credentialPlane
    · rw [pastGate.eq_def, pastGate.eq_def, hgate]
      simp only [Except.map, Walked.excluded, Walked.erase, Excluded.erase, List.map_cons,
        List.map_nil, if_pos hsecret, alike.measure]
    obtain ⟨hlocal, hcredential⟩ := not_or.mp hsecret
    have hplain := plain_of_excluded (exclusionReason_of_gate hgate) hlocal hcredential
    rw [alike.eq_of_plain hplain, pastGate.eq_def, pastGate.eq_def, hgate]
  | untracked =>
    obtain ⟨root, gitPath, hdossier⟩ := dossier_of_gate hgate
    rw [alike.eq_of_plain (plain_of_dossier hdossier), pastGate.eq_def, pastGate.eq_def, hgate]

end Gate

/-! ## Files -/

theorem StripAlike.transform {key : String} {left right : Bytes}
    (h : StripAlike codec key left right) :
    transformJson codec left (fun value ↦ .ok (strip key value)) =
      transformJson codec right (fun value ↦ .ok (strip key value)) := by
  obtain ⟨l, r, hl, hr, hstrip⟩ := h
  simp only [transformJson, hl, hr, hstrip]

variable {context : WalkContext}

theorem fileTransform_ai (bytes : Bytes) :
    fileTransform context aiProviderFile bytes = some .stripAiCredentials := by
  simp [fileTransform, transferTransform, aiProviderFile, configPath]

theorem fileTransform_market (bytes : Bytes) :
    fileTransform context marketDataFile bytes = some .stripMarketProviderKeys := by
  simp [fileTransform, transferTransform, aiProviderFile, marketDataFile, configPath]

theorem scheduledIssueOf_config (file : String) (bytes : Bytes) :
    scheduledIssueOf context (configPath file) bytes = none := rfl

theorem portableBytes_alike {path : Path} {left right : Bytes}
    (alike : ContentAlike context.codec path left right) (hportable : exclusionReason path = none) :
    portableBytes context path left = portableBytes context path right := by
  cases alike with
  | same => rfl
  | secret hsecret => exact absurd hportable hsecret.excluded
  | credentials hpath h =>
    subst hpath
    rw [portableBytes, portableBytes, fileTransform_ai, fileTransform_ai]
    exact h.transform
  | providerKeys hpath h =>
    subst hpath
    rw [portableBytes, portableBytes, fileTransform_market, fileTransform_market]
    exact h.transform

theorem fileEntry_stripped {path : Path} {left right portable : Bytes} {t : Transform} (mode : Nat)
    (hleft : fileTransform context path left = some t)
    (hright : fileTransform context path right = some t)
    (hstrip : t = .stripAiCredentials ∨ t = .stripMarketProviderKeys) :
    (fileEntry context path mode left portable).erase =
      (fileEntry context path mode right portable).erase := by
  have herase : some t = some Transform.stripAiCredentials ∨
      some t = some Transform.stripMarketProviderKeys :=
    hstrip.imp (congrArg some) (congrArg some)
  simp only [fileEntry, Entry.erase, hleft, hright, if_pos herase]

theorem walkFile_alike {path : Path} {left right : Bytes} (mode : Nat)
    (alike : ContentAlike context.codec path left right) (hportable : exclusionReason path = none) :
    (walkFile context path mode left).map Walked.erase =
      (walkFile context path mode right).map Walked.erase := by
  have hbytes := portableBytes_alike alike hportable
  cases alike with
  | same => rfl
  | secret hsecret => exact absurd hportable hsecret.excluded
  | credentials hpath h =>
    subst hpath
    rw [walkFile, walkFile, hbytes]
    cases portableBytes context aiProviderFile right with
    | error error => rfl
    | ok portable =>
      simp only [Except.map, Walked.erase, List.map_cons, List.map_nil, aiProviderFile,
        scheduledIssueOf_config]
      rw [← aiProviderFile, fileEntry_stripped mode (fileTransform_ai left) (fileTransform_ai right)
        (.inl rfl)]
  | providerKeys hpath h =>
    subst hpath
    rw [walkFile, walkFile, hbytes]
    cases portableBytes context marketDataFile right with
    | error error => rfl
    | ok portable =>
      simp only [Except.map, Walked.erase, List.map_cons, List.map_nil, marketDataFile,
        scheduledIssueOf_config]
      rw [← marketDataFile, fileEntry_stripped mode (fileTransform_market left) (fileTransform_market right)
        (.inr rfl)]

/-! ## The walk -/

mutual

/-- **The walk finds the same in homes that are alike**, up to the sizes and the digests of
secrets. -/
theorem walkPortableTree_alike {path : Path} {left right : Node} :
    NodeAlike context.codec path left right →
      (walkPortableTree context path left).map Walked.erase =
        (walkPortableTree context path right).map Walked.erase
  | .file h => pastGate_alike (.file h) fun hgate ↦
      walkFile_alike _ h (exclusionReason_of_portable hgate)
  | .directory h => pastGate_alike (.directory h) fun _ ↦
      map_map_congr (walkChildren_alike h) fun first second hseen ↦ by
        rw [Walked.erase_append, Walked.erase_append, hseen]
  | .symlink _ _ _ => rfl
  | .other _ => rfl

theorem walkChildren_alike {path : Path} {left right : Children} :
    ChildrenAlike context.codec path left right →
      (walkChildren context path left).map Walked.erase =
        (walkChildren context path right).map Walked.erase
  | .nil _ => rfl
  | .cons node rest => by
      refine map_bind_congr Walked.erase (walkPortableTree_alike node) fun first first' _ _ hfirst ↦ ?_
      refine map_bind_congr Walked.erase (walkChildren_alike rest) fun others others' _ _ hothers ↦ ?_
      exact congrArg Except.ok (by rw [Walked.erase_append, Walked.erase_append, hfirst, hothers])

end

end OpenAlice.Transfer
