import OpenAlice.Transfer.Alike

/-!
# Omitted credentials stay

What a transfer without credentials carries of a home's secrets: the plan has the sizes and
the digests of the two files that are stripped, and the bytes of the excluded files; nothing
else of the plan depends on a secret, and nothing of the stream after the line of the plan
(`omitted_credentials_stay`).
-/

namespace OpenAlice.Transfer

open OpenAlice.Data OpenAlice.Core

/-! ## Entries -/

namespace Entry

variable (entry : Entry)

@[simp] theorem erase_path : entry.erase.path = entry.path := by
  rw [erase]
  split_ifs <;> rfl

@[simp] theorem erase_kind : entry.erase.kind = entry.kind := by
  rw [erase]
  split_ifs <;> rfl

@[simp] theorem erase_mode : entry.erase.mode = entry.mode := by
  rw [erase]
  split_ifs <;> rfl

@[simp] theorem erase_size : entry.erase.size = entry.size := by
  rw [erase]
  split_ifs <;> rfl

@[simp] theorem erase_sha256 : entry.erase.sha256 = entry.sha256 := by
  rw [erase]
  split_ifs <;> rfl

@[simp] theorem erase_linkTarget : entry.erase.linkTarget = entry.linkTarget := by
  rw [erase]
  split_ifs <;> rfl

end Entry

variable {codec : Codec}

theorem sortEntries_erase (entries : List Entry) :
    (sortEntries codec entries).map Entry.erase = sortEntries codec (entries.map Entry.erase) :=
  List.map_mergeSort fun left _ right _ ↦ by rw [Entry.erase_path, Entry.erase_path]

@[simp] theorem totalBytes_erase (entries : List Entry) :
    totalBytes (entries.map Entry.erase) = totalBytes entries := by
  simp only [totalBytes, List.foldl_map, Entry.erase_size]

@[simp] theorem countKind_erase (kind : EntryKind) (entries : List Entry) :
    countKind kind (entries.map Entry.erase) = countKind kind entries := by
  rw [countKind, List.filter_map, List.length_map, countKind]
  simp only [Function.comp_def, Entry.erase_kind]

/-! ## Exclusions -/

def Exclusion.erase (exclusion : Exclusion) : Exclusion :=
  if exclusion.reason = .machineLocal ∨ exclusion.reason = .credentialPlane then
    { exclusion with bytes := 0 }
  else exclusion

def Reasoned (exclusions : List (ExclusionReason × Exclusion)) : Prop :=
  ∀ entry ∈ exclusions, entry.2.reason = entry.1

variable {exclusions : List (ExclusionReason × Exclusion)}

theorem Reasoned.current (h : Reasoned exclusions) (reason : ExclusionReason) :
    ((exclusions.lookup reason).getD ⟨reason, 0, 0, []⟩).reason = reason := by
  cases hlookup : exclusions.lookup reason with
  | none => rfl
  | some exclusion =>
    obtain ⟨before, after, hsplit, -⟩ := List.lookup_eq_some_iff.mp hlookup
    exact h (reason, exclusion) (by rw [hsplit]; simp)

theorem Reasoned.addExclusion (h : Reasoned exclusions) (excluded : Excluded) :
    Reasoned (addExclusion exclusions excluded) := by
  intro entry hentry
  rcases mem_setKey hentry with rfl | hentry
  · exact h.current excluded.reason
  · exact h entry hentry

theorem addExclusion_erase (h : Reasoned exclusions) (excluded : Excluded) :
    (addExclusion exclusions excluded).map (Prod.map id Exclusion.erase) =
      addExclusion (exclusions.map (Prod.map id Exclusion.erase)) excluded.erase := by
  have hreason : excluded.erase.reason = excluded.reason := by
    rw [Excluded.erase]
    split_ifs <;> rfl
  have hcurrent := h.current excluded.reason
  rw [addExclusion, addExclusion, hreason, lookup_map_values, ← setKey_map_values]
  congr 1
  cases hlookup : exclusions.lookup excluded.reason with
  | none =>
    by_cases hsecret : excluded.reason = .machineLocal ∨ excluded.reason = .credentialPlane
    · simp [Exclusion.erase, Excluded.erase, hsecret]
    · simp [Exclusion.erase, Excluded.erase, hsecret]
  | some current =>
    rw [hlookup, Option.getD_some] at hcurrent
    by_cases hsecret : excluded.reason = .machineLocal ∨ excluded.reason = .credentialPlane
    · simp [Exclusion.erase, Excluded.erase, hsecret, hcurrent]
    · simp [Exclusion.erase, Excluded.erase, hsecret, hcurrent]

theorem foldl_addExclusion_erase (h : Reasoned exclusions) (excluded : List Excluded) :
    (excluded.foldl addExclusion exclusions).map (Prod.map id Exclusion.erase) =
      (excluded.map Excluded.erase).foldl addExclusion
        (exclusions.map (Prod.map id Exclusion.erase)) := by
  induction excluded generalizing exclusions with
  | nil => rfl
  | cons first rest ih =>
    rw [List.foldl_cons, ih (h.addExclusion first), addExclusion_erase h]
    rfl

theorem excluded_erase (excluded : List Excluded) :
    ((excluded.foldl addExclusion []).map Prod.snd).map Exclusion.erase =
      ((excluded.map Excluded.erase).foldl addExclusion []).map Prod.snd := by
  have hnone : Reasoned [] := fun _ h ↦ absurd h List.not_mem_nil
  have h := foldl_addExclusion_erase hnone excluded
  rw [List.map_nil] at h
  rw [← h, List.map_map, List.map_map]
  rfl

/-! ## The plan -/

/-- A plan without its identifier and time, and without what it says of the size and the
content of secrets. -/
def Plan.erase (plan : Plan) : Plan :=
  { plan with
    transferId := ""
    generatedAt := ""
    entries := plan.entries.map Entry.erase
    excluded := plan.excluded.map Exclusion.erase }

section Plans

variable {input : PlanInput} {stamp stamp' : Stamp} {left right : Source}

theorem planOf_erase {bundle bundle' : CredentialBundle} {walked walked' : Walked}
    {product : Product} {identity : String × String × String} (homes : left.home = right.home)
    (omitted : input.credentials = some .omitted)
    (hsummary : summarizeProjectTransferCredentials bundle =
      summarizeProjectTransferCredentials bundle')
    (hwalked : walked.erase = walked'.erase) :
    (planOf codec input stamp left bundle walked product identity).erase =
      (planOf codec input stamp' right bundle' walked' product identity).erase := by
  obtain ⟨hentries, hexclusions, hissues⟩ := Walked.mk.inj hwalked
  have hsorted : (sortEntries codec walked.entries).map Entry.erase =
      (sortEntries codec walked'.entries).map Entry.erase := by
    rw [sortEntries_erase, sortEntries_erase, hentries]
  have htotal : totalBytes (sortEntries codec walked.entries) =
      totalBytes (sortEntries codec walked'.entries) := by
    rw [← totalBytes_erase, hsorted, totalBytes_erase]
  have hcount : ∀ kind, countKind kind (sortEntries codec walked.entries) =
      countKind kind (sortEntries codec walked'.entries) := by
    intro kind
    rw [← countKind_erase, hsorted, countKind_erase]
  have hexcluded := excluded_erase walked.exclusions
  rw [hexclusions, ← excluded_erase] at hexcluded
  have hroot : splitRootBlockers input left = splitRootBlockers input right := by
    rw [splitRootBlockers, splitRootBlockers, Source.absolute, Source.absolute, homes]
  simp only [planOf, Plan.erase, hsorted, htotal, hcount, hexcluded, hissues, hsummary, omitted,
    Option.getD_some, credentialBytes, hroot, homes]

theorem planProjectTransfer_alike (homes : left.home = right.home)
    (alike : NodeAlike codec [] left.tree right.tree)
    (summary : credentialSummary codec left = credentialSummary codec right)
    (product : readAliceProjectProduct codec left = readAliceProjectProduct codec right)
    (omitted : input.credentials = some .omitted) :
    (planProjectTransfer codec input stamp left).map Plan.erase =
      (planProjectTransfer codec input stamp' right).map Plan.erase := by
  have hcontext : walkContext codec input left = walkContext codec input right := by
    rw [walkContext, walkContext, homes]
  have hwalked : (walkPortableTree (walkContext codec input right) [] left.tree).map Walked.erase =
      (walkPortableTree (walkContext codec input right) [] right.tree).map Walked.erase :=
    walkPortableTree_alike alike
  refine map_bind_congr summarizeProjectTransferCredentials summary fun bundle bundle' _ _ hsummary ↦ ?_
  refine map_bind_congr Walked.erase (by rw [hcontext, hwalked]) fun walked walked' _ _ hwalk ↦ ?_
  refine map_bind_congr id (by rw [product]) fun found found' _ _ hfound ↦ ?_
  refine map_bind_congr id rfl fun identity identity' _ _ hidentity ↦ ?_
  cases hfound
  cases hidentity
  exact congrArg Except.ok (planOf_erase homes omitted hsummary hwalk)

end Plans

/-! ## What the entries describe -/

def Describes (context : WalkContext) (entry : Entry) : Node → Prop
  | .file mode bytes => ∃ portable, portableBytes context entry.path bytes = .ok portable ∧
      entry = fileEntry context entry.path mode bytes portable
  | .directory _ _ => entry.kind = .directory
  | .symlink _ target => entry.kind = .symlink ∧ entry.linkTarget = some target
  | .other => False

section Described

variable {context : WalkContext}

theorem portable_of_pastGate {path : Path} {node : Node} {found : Except TransferError Walked}
    {walked : Walked} {entry : Entry} (h : pastGate context path node found = .ok walked)
    (hentry : entry ∈ walked.entries) : gate context path = .portable ∧ found = .ok walked := by
  rw [pastGate.eq_def] at h
  split at h
  · cases h
  · cases h
    cases hentry
  · split at h <;> · cases h
                     cases hentry
  · exact ⟨‹_›, h⟩

mutual

theorem walkPortableTree_describes {path : Path} {walked : Walked} {entry : Entry} :
    ∀ node : Node, node.Distinct → walkPortableTree context path node = .ok walked →
      entry ∈ walked.entries →
      gate context entry.path = .portable ∧ ∃ below place, entry.path = path ++ below ∧
        node.lookup below = some place ∧ Describes context entry place
  | .file mode bytes, _, hwalk, hentry => by
      obtain ⟨hgate, hfound⟩ := portable_of_pastGate hwalk hentry
      obtain ⟨portable, hportable, rfl⟩ := map_ok hfound
      rw [List.mem_singleton] at hentry
      subst hentry
      exact ⟨hgate, [], _, (List.append_nil _).symm, rfl, portable, hportable, rfl⟩
  | .symlink mode target, _, hwalk, hentry => by
      obtain ⟨hgate, hfound⟩ := portable_of_pastGate hwalk hentry
      rw [walkSymlink] at hfound
      split_ifs at hfound
      cases hfound
      rw [Walked.entry, List.mem_singleton] at hentry
      subst hentry
      exact ⟨hgate, [], _, (List.append_nil _).symm, rfl, rfl, rfl⟩
  | .other, _, hwalk, hentry => by
      obtain ⟨-, hfound⟩ := portable_of_pastGate hwalk hentry
      cases hfound
  | .directory mode children, hdistinct, hwalk, hentry => by
      obtain ⟨hgate, hfound⟩ := portable_of_pastGate hwalk hentry
      obtain ⟨below, hbelow, rfl⟩ := map_ok hfound
      rcases List.mem_append.mp hentry with hself | hchild
      · rw [walkDirectory] at hself
        split_ifs at hself
        · cases hself
        rw [Walked.entry, List.mem_singleton] at hself
        subst hself
        exact ⟨hgate, [], _, (List.append_nil _).symm, rfl, rfl⟩
      · obtain ⟨hchildGate, name, rest, place, -, hpath, hlookup, hdescribes⟩ :=
          walkChildren_describes children hdistinct hbelow hchild
        exact ⟨hchildGate, name :: rest, place, hpath, hlookup, hdescribes⟩

theorem walkChildren_describes {path : Path} {walked : Walked} {entry : Entry} :
    ∀ children : Children, children.Distinct → walkChildren context path children = .ok walked →
      entry ∈ walked.entries →
      gate context entry.path = .portable ∧ ∃ name below place, name ∈ children.names ∧
        entry.path = path ++ name :: below ∧ children.lookup name below = some place ∧
        Describes context entry place
  | .nil, _, hwalk, hentry => by
      cases hwalk
      cases hentry
  | .cons name node rest, hdistinct, hwalk, hentry => by
      obtain ⟨hname, hnode, hrest⟩ := hdistinct
      obtain ⟨first, hfirst, hafter⟩ := bind_ok hwalk
      obtain ⟨others, hothers, hboth⟩ := bind_ok hafter
      cases hboth
      rcases List.mem_append.mp hentry with hentry | hentry
      · obtain ⟨hgate, below, place, hpath, hlookup, hdescribes⟩ :=
          walkPortableTree_describes node hnode hfirst hentry
        refine ⟨hgate, name, below, place, List.mem_cons_self, ?_, ?_, hdescribes⟩
        · rw [hpath, List.append_assoc, List.singleton_append]
        · rw [Children.lookup, if_pos rfl, hlookup]
      · obtain ⟨hgate, other, below, place, hother, hpath, hlookup, hdescribes⟩ :=
          walkChildren_describes rest hrest hothers hentry
        refine ⟨hgate, other, below, place, List.mem_cons_of_mem _ hother, hpath, ?_, hdescribes⟩
        rw [Children.lookup, if_neg (ne_of_mem_of_not_mem hother hname).symm, hlookup]

end

end Described

mutual

theorem NodeAlike.lookup {path : Path} {left right : Node} :
    NodeAlike codec path left right → ∀ (below : Path) {a b : Node},
      left.lookup below = some a → right.lookup below = some b → NodeAlike codec (path ++ below) a b
  | alike, [], a, b, hleft, hright => by
      rw [Node.lookup] at hleft hright
      cases hleft
      cases hright
      rwa [List.append_nil]
  | .directory h, name :: below, a, b, hleft, hright => h.lookup name below hleft hright
  | .file _, _ :: _, a, b, hleft, _ => by cases hleft
  | .symlink _ _ _, _ :: _, a, b, hleft, _ => by cases hleft
  | .other _, _ :: _, a, b, hleft, _ => by cases hleft

theorem ChildrenAlike.lookup {path : Path} {left right : Children} :
    ChildrenAlike codec path left right → ∀ (name : String) (below : Path) {a b : Node},
      left.lookup name below = some a → right.lookup name below = some b →
      NodeAlike codec (path ++ name :: below) a b
  | .nil _, _, _, a, b, hleft, _ => by cases hleft
  | @ChildrenAlike.cons _ _ child _ _ _ _ node rest, name, below, a, b, hleft, hright => by
      rw [Children.lookup] at hleft hright
      by_cases hname : child = name
      · subst hname
        rw [if_pos rfl] at hleft hright
        have h := node.lookup below hleft hright
        rwa [List.append_assoc, List.singleton_append] at h
      · rw [if_neg hname] at hleft hright
        exact rest.lookup name below hleft hright

end

/-! ## The stream -/

def Piece.erase : Piece → Piece
  | .head plan => .head plan.erase
  | .bytes content => .bytes content

def Written.erase (written : Written) : Written :=
  ⟨written.pieces.map Piece.erase, written.result⟩

section Checks

@[simp] theorem validateTransferEntry_erase (entry : Entry) :
    validateTransferEntry entry.erase = validateTransferEntry entry := by
  simp only [validateTransferEntry, Entry.erase_path, Entry.erase_mode, Entry.erase_size,
    Entry.erase_kind, Entry.erase_sha256, Entry.erase_linkTarget]

@[simp] theorem countEntry_erase (links : List Path) (counted : Counted) (entry : Entry) :
    countEntry links counted entry.erase = countEntry links counted entry := by
  simp only [countEntry, validateTransferEntry_erase, Entry.erase_path, Entry.erase_size,
    Entry.erase_kind]

@[simp] theorem linkPaths_erase (entries : List Entry) :
    linkPaths (entries.map Entry.erase) = linkPaths entries := by
  simp only [linkPaths, List.filter_map, List.map_map, Function.comp_def, Entry.erase_kind,
    Entry.erase_path]

theorem assertTransferPlan_erase (plan : Plan) :
    assertTransferPlan { plan.erase with transferId := plan.transferId } =
      assertTransferPlan plan := by
  simp only [assertTransferPlan, Plan.erase, List.length_map, linkPaths_erase, List.foldlM_map,
    countEntry_erase]
  rfl

theorem assertTransferPlan_congr {plan plan' : Plan} (h : plan.erase = plan'.erase)
    (hid : isTransferId plan.transferId = isTransferId plan'.transferId) :
    assertTransferPlan plan = assertTransferPlan plan' := by
  rw [← assertTransferPlan_erase plan, ← assertTransferPlan_erase plan', h]
  simp only [assertTransferPlan, hid]

end Checks

section Stream

variable {context : WalkContext} {left right : Source}

theorem writeFile_described {path : Path} {bytes portable : Bytes} (mode : Nat)
    (h : portableBytes context path bytes = .ok portable) :
    writeFile context.codec context.destinationHome (fileEntry context path mode bytes portable)
      bytes = ⟨[.bytes portable], .ok portable.length⟩ := by
  rw [writeFile, fileEntry]
  rw [portableBytes] at h
  cases htransform : fileTransform context path bytes with
  | none =>
    rw [htransform] at h
    cases h
    simp
  | some t =>
    rw [htransform] at h
    simp [h]

theorem writeEntry_alike {index : Nat} {entry entry' : Entry} {place place' : Node}
    (herase : entry.erase = entry'.erase) (hgate : gate context entry.path = .portable)
    (hleft : left.tree.lookup entry.path = some place)
    (hright : right.tree.lookup entry'.path = some place')
    (alike : NodeAlike context.codec entry.path place place')
    (hdescribes : Describes context entry place) (hdescribes' : Describes context entry' place') :
    writeEntry context.codec left context.destinationHome index entry =
      writeEntry context.codec right context.destinationHome index entry' := by
  have hpath : entry.path = entry'.path := by
    rw [← Entry.erase_path, herase, Entry.erase_path]
  rw [writeEntry, writeEntry, hleft, hright]
  cases alike with
  | directory =>
    rw [show entry.kind = .directory from hdescribes,
      show entry'.kind = .directory from hdescribes']
  | symlink path mode target =>
    obtain ⟨hkind, htarget⟩ := hdescribes
    obtain ⟨hkind', htarget'⟩ := hdescribes'
    simp only [hkind, hkind', htarget, htarget', if_true]
  | other => exact absurd hdescribes id
  | @file _ mode _ _ hcontent =>
    obtain ⟨portable, hportable, hentry⟩ := hdescribes
    obtain ⟨portable', hportable', hentry'⟩ := hdescribes'
    have hsame : portable = portable' := by
      have h := hportable'
      rw [← hpath, ← portableBytes_alike hcontent (exclusionReason_of_portable hgate),
        hportable] at h
      exact Except.ok.inj h
    have hfile := writeFile_described mode hportable
    have hfile' := writeFile_described mode hportable'
    rw [← hentry] at hfile
    rw [← hentry', ← hsame] at hfile'
    have hkind : entry.kind = .file := by rw [hentry]; rfl
    have hkind' : entry'.kind = .file := by rw [hentry']; rfl
    simp only [hkind, hkind', hfile, hfile']

def Described (context : WalkContext) (source : Source) (entries : List Entry) : Prop :=
  ∀ entry ∈ entries, gate context entry.path = .portable ∧
    ∃ place, source.tree.lookup entry.path = some place ∧ Describes context entry place

theorem described_of_walk {source : Source} {walked : Walked}
    (h : walkPortableTree context [] source.tree = .ok walked) :
    Described context source walked.entries := by
  intro entry hentry
  obtain ⟨hgate, below, place, hpath, hlookup, hdescribes⟩ :=
    walkPortableTree_describes source.tree source.distinct h hentry
  rw [List.nil_append] at hpath
  exact ⟨hgate, place, by rwa [hpath], hdescribes⟩

theorem Described.sorted {source : Source} {entries : List Entry} (codec : Codec)
    (h : Described context source entries) :
    Described context source (sortEntries codec entries) :=
  fun entry hentry ↦ h entry (List.mem_mergeSort.mp hentry)

theorem writeEntries_alike (alike : NodeAlike context.codec [] left.tree right.tree)
    {entries entries' : List Entry} (herase : entries.map Entry.erase = entries'.map Entry.erase)
    (h : Described context left entries) (h' : Described context right entries') (index : Nat) :
    writeEntries context.codec left context.destinationHome index entries =
      writeEntries context.codec right context.destinationHome index entries' := by
  induction entries generalizing entries' index with
  | nil =>
    rw [List.map_nil, eq_comm, List.map_eq_nil_iff] at herase
    rw [herase, writeEntries, writeEntries]
  | cons entry rest ih =>
    obtain ⟨entry', rest', rfl⟩ : ∃ entry' rest', entries' = entry' :: rest' := by
      cases entries' with
      | nil => cases herase
      | cons entry' rest' => exact ⟨entry', rest', rfl⟩
    obtain ⟨hfirst, hrest⟩ := List.cons.inj herase
    obtain ⟨hgate, place, hplace, hdescribes⟩ := h entry List.mem_cons_self
    obtain ⟨-, place', hplace', hdescribes'⟩ := h' entry' List.mem_cons_self
    have hpath : entry.path = entry'.path := by
      rw [← Entry.erase_path, hfirst, Entry.erase_path]
    have hplaces := alike.lookup entry.path hplace (by rwa [hpath])
    rw [writeEntries, writeEntries,
      writeEntry_alike hfirst hgate hplace hplace' hplaces hdescribes hdescribes',
      ih hrest (fun e he ↦ h e (List.mem_cons_of_mem _ he))
        fun e he ↦ h' e (List.mem_cons_of_mem _ he)]

end Stream

/-! ## The two homes -/

section Homes

variable {input : PlanInput} {stamp stamp' : Stamp} {left right : Source}

theorem planProjectTransfer_cases {source : Source} {plan : Plan}
    (h : planProjectTransfer codec input stamp source = .ok plan) :
    ∃ bundle walked product identity,
      walkPortableTree (walkContext codec input source) [] source.tree = .ok walked ∧
        plan = planOf codec input stamp source bundle walked product identity := by
  obtain ⟨bundle, -, h⟩ := bind_ok h
  obtain ⟨walked, hwalked, h⟩ := bind_ok h
  obtain ⟨product, -, h⟩ := bind_ok h
  obtain ⟨identity, -, h⟩ := bind_ok h
  cases h
  exact ⟨bundle, walked, product, identity, hwalked, rfl⟩

theorem Written.erase_followedBy (first second : Written) :
    (first.followedBy second).erase = first.erase.followedBy second.erase := by
  obtain ⟨pieces, result⟩ := first
  cases result with
  | error error => rfl
  | ok n => simp only [followedBy, erase, List.map_append]

theorem writeProjectTransferStream_alike {plan plan' : Plan} (h : plan.erase = plan'.erase)
    (hid : isTransferId plan.transferId = isTransferId plan'.transferId)
    (omitted : plan.credentialMode = .omitted)
    (hentries : writeEntries codec left plan.destinationHome 0 plan.entries =
      writeEntries codec right plan'.destinationHome 0 plan'.entries) :
    (writeProjectTransferStream codec left plan).erase =
      (writeProjectTransferStream codec right plan').erase := by
  have hready : plan.erase.readyToApply = plan'.erase.readyToApply := by rw [h]
  have hmode : plan.erase.credentialMode = plan'.erase.credentialMode := by rw [h]
  have hhead : (Written.mk [.head plan] (.ok 0)).erase = (Written.mk [.head plan'] (.ok 0)).erase := by
    rw [Written.erase, Written.erase, List.map_singleton, List.map_singleton, Piece.erase,
      Piece.erase, h]
  simp only [Plan.erase] at hready hmode
  rw [writeProjectTransferStream, writeProjectTransferStream, assertTransferPlan_congr h hid]
  cases assertTransferPlan plan' with
  | error error => rfl
  | ok =>
    simp only [hready]
    split_ifs
    · rfl
    · rw [← hmode, omitted, hentries, Written.erase_followedBy, hhead, ← Written.erase_followedBy]
      rfl

/-- **Omitted credentials stay.**  Homes that differ in their secrets only, with equal summaries
and stamps of the product, have the same plan without credentials, but for its identifier and
time and for the sizes and digests of secrets, and the same stream after the line of the
plan. -/
theorem omitted_credentials_stay (homes : left.home = right.home)
    (alike : NodeAlike codec [] left.tree right.tree)
    (summary : credentialSummary codec left = credentialSummary codec right)
    (product : readAliceProjectProduct codec left = readAliceProjectProduct codec right)
    (omitted : input.credentials = some .omitted) :
    (planProjectTransfer codec input stamp left).map Plan.erase =
        (planProjectTransfer codec input stamp' right).map Plan.erase ∧
      ∀ plan plan', planProjectTransfer codec input stamp left = .ok plan →
        planProjectTransfer codec input stamp' right = .ok plan' →
        isTransferId stamp.transferId = isTransferId stamp'.transferId →
        (writeProjectTransferStream codec left plan).erase =
          (writeProjectTransferStream codec right plan').erase := by
  have hplans : (planProjectTransfer codec input stamp left).map Plan.erase =
      (planProjectTransfer codec input stamp' right).map Plan.erase :=
    planProjectTransfer_alike homes alike summary product omitted
  refine ⟨hplans, fun plan plan' hleft hright hid ↦ ?_⟩
  have herase : plan.erase = plan'.erase := by
    rw [hleft, hright] at hplans
    exact Except.ok.inj hplans
  obtain ⟨bundle, walked, found, identity, hwalked, rfl⟩ := planProjectTransfer_cases hleft
  obtain ⟨bundle', walked', found', identity', hwalked', rfl⟩ := planProjectTransfer_cases hright
  have hcontext : walkContext codec input left = walkContext codec input right := by
    rw [walkContext, walkContext, homes]
  rw [← hcontext] at hwalked'
  have hleftEntries : Described (walkContext codec input left) left
      (sortEntries codec walked.entries) := (described_of_walk hwalked).sorted codec
  have hentries := writeEntries_alike alike (congrArg Plan.entries herase) hleftEntries
    ((described_of_walk hwalked').sorted codec) 0
  refine writeProjectTransferStream_alike herase hid ?_ hentries
  rw [planOf, omitted, Option.getD_some]

end Homes

/-! ## What does travel

Two homes whose only file is the vault, with one credential and keys of different lengths. -/

def quoted (text : String) : String :=
  "\"" ++ String.ofList (text.toList.flatMap fun c ↦
    if c = '"' ∨ c = '\\' then ['\\', c] else [c]) ++ "\""

mutual

/-- `JSON.stringify`, of texts without control characters. -/
def Json.text : Json → String
  | .null => "null"
  | .bool value => if value then "true" else "false"
  | .number text => text
  | .string value => quoted value
  | .array items => "[" ++ ",".intercalate (itemTexts items) ++ "]"
  | .object fields => "\x7b" ++ ",".intercalate (fieldTexts fields) ++ "\x7d"

def itemTexts : List Json → List String
  | [] => []
  | item :: rest => Json.text item :: itemTexts rest

def fieldTexts : List (String × Json) → List String
  | [] => []
  | (key, value) :: rest => (quoted key ++ ":" ++ Json.text value) :: fieldTexts rest

end

def vaultWith (apiKey : String) : Json :=
  .object [("credentials",
    .object [("a-1", .object [("vendor", .string "a"), ("apiKey", .string apiKey)])])]

def ascii (text : String) : Bytes := text.toList.map fun c ↦ UInt8.ofNat c.toNat

def digests : List (String × String) :=
  [(Json.text (vaultWith "k"), "d0d9b1a86e2dec0d24f396832aa5fd89d9502c165910d83194869ee7e571894d"),
    (Json.text (vaultWith "kk"), "ba551ef0b16935513218f7711c3fabd818602adcfb4cabd71016bd67595662a7"),
    ("\x7b\n  \"credentials\": \x7b\x7d\n\x7d\n",
      "615e2184b8b9172a0faa7820e0f8880d6399d4b2325bc53a2938fce42b3ffb2e"),
    ("openalice/alice-project/v1\x00/to",
      "b0fbda915133a333c7633b82fc99cb6a80eca07f625c46b3e730276fb654e24a")]

def asciiCodec : Codec where
  decode bytes := String.ofList (bytes.map fun b ↦ Char.ofNat b.toNat)
  encode := ascii
  sha256 bytes := ((digests.find? fun digest ↦ ascii digest.1 = bytes).map Prod.snd).getD ""
  parse text := (([vaultWith "k", vaultWith "kk"].find? fun value ↦ Json.text value = text).map
    .ok).getD (.error "Unexpected token")
  stringify := Json.text
  stringifyIndented
    | .object [(key, .object [])] => "\x7b\n  " ++ quoted key ++ ": \x7b\x7d\n\x7d"
    | value => Json.text value
  decrypt _ _ _ _ := none
  localeLe left right := unitsLe (utf16 left) (utf16 right)

def homeWith (apiKey : String) : Source where
  home := ["from"]
  tree := .directory 0o755 (.cons "data" (.directory 0o755 (.cons "config" (.directory 0o755
    (.cons "ai-provider-manager.json" (.file 0o600 (ascii (Json.text (vaultWith apiKey)))) .nil)) .nil))
    .nil)
  outside _ := .ok none
  distinct := by simp [Node.Distinct, Children.Distinct, Children.names]

def transferInput : PlanInput where
  sourceId := "alice-project-source"
  sourceKey := "local"
  sourceDisplayName := "Local"
  destinationMachineKey := "cloud"
  destinationProjectKey := "alice"
  destinationDisplayName := none
  destinationHome := "/to"
  credentials := some .omitted
  scheduledIssues := none
  launcherRoot := none
  isGitTracked _ _ := false

theorem homeWith_alike : NodeAlike asciiCodec [] (homeWith "k").tree (homeWith "kk").tree := by
  have hstrip : StripAlike asciiCodec "credentials" (ascii (Json.text (vaultWith "k")))
      (ascii (Json.text (vaultWith "kk"))) := ⟨vaultWith "k", vaultWith "kk", rfl, rfl, rfl⟩
  exact .directory (.cons (.directory (.cons (.directory (.cons (.file (.credentials rfl hstrip))
    (.nil _))) (.nil _))) (.nil _))

theorem ok_of_toOption {α : Type} {x : Except TransferError α} {a : α}
    (h : x.toOption = some a) : x = .ok a := by
  match x with
  | .ok b => exact congrArg Except.ok (Option.some.inj h)
  | .error _ => cases h

theorem homeWith_summary :
    credentialSummary asciiCodec (homeWith "k") = credentialSummary asciiCodec (homeWith "kk") := by
  have hshort : (credentialSummary asciiCodec (homeWith "k")).toOption =
      some ⟨⟨1, ["a"]⟩, ⟨0, []⟩, ⟨0, []⟩, ⟨0, []⟩⟩ := by decide +kernel
  have hlong : (credentialSummary asciiCodec (homeWith "kk")).toOption =
      some ⟨⟨1, ["a"]⟩, ⟨0, []⟩, ⟨0, []⟩, ⟨0, []⟩⟩ := by decide +kernel
  rw [ok_of_toOption hshort, ok_of_toOption hlong]

theorem homeWith_product : readAliceProjectProduct asciiCodec (homeWith "k") =
    readAliceProjectProduct asciiCodec (homeWith "kk") := by
  have hshort : readAliceProjectProduct asciiCodec (homeWith "k") = .ok .trader := rfl
  have hlong : readAliceProjectProduct asciiCodec (homeWith "kk") = .ok .trader := rfl
  rw [hshort, hlong]

/-- The plans and the streams of these two homes. -/
theorem omitted_credentials_stay_homeWith :
    (planProjectTransfer asciiCodec transferInput ⟨"a", "2026-08-23"⟩ (homeWith "k")).map
        Plan.erase =
      (planProjectTransfer asciiCodec transferInput ⟨"b", "2026-08-24"⟩ (homeWith "kk")).map
        Plan.erase := by
  have homes : (homeWith "k").home = (homeWith "kk").home := rfl
  have omitted : transferInput.credentials = some .omitted := rfl
  exact (omitted_credentials_stay homes homeWith_alike homeWith_summary homeWith_product omitted).1

def Plan.unstamped (plan : Plan) : Plan := { plan with transferId := "", generatedAt := "" }

def vaultEntryOf (size : Nat) (sha256 : String) : Entry where
  path := aiProviderFile
  kind := .file
  mode := 0o600
  size := 24
  sha256 := some "615e2184b8b9172a0faa7820e0f8880d6399d4b2325bc53a2938fce42b3ffb2e"
  sourceSize := some size
  sourceSha256 := some sha256
  linkTarget := none
  transform := some .stripAiCredentials

def homeEntries (vault : Entry) : List Entry :=
  [⟨["data"], .directory, 0o755, 0, none, none, none, none, none⟩,
    ⟨["data", "config"], .directory, 0o755, 0, none, none, none, none, none⟩, vault]

theorem plan_homeWith (apiKey : String) (vault : Entry)
    (hbundle : (readProjectTransferCredentialBundle asciiCodec (homeWith apiKey)).isOk = true)
    (hproduct : readAliceProjectProduct asciiCodec (homeWith apiKey) = .ok .trader)
    (hwalk : (walkPortableTree (walkContext asciiCodec transferInput (homeWith apiKey)) []
      (homeWith apiKey).tree).toOption.map Walked.entries = some (homeEntries vault)) :
    ∃ plan, planProjectTransfer asciiCodec transferInput ⟨"a", ""⟩ (homeWith apiKey) = .ok plan ∧
      plan.entries = sortEntries asciiCodec (homeEntries vault) := by
  have hidentity : (resolveAliceProjectIdentity
      (deriveAliceProjectId asciiCodec (normalize transferInput.destinationHome))
      transferInput.destinationProjectKey
      (transferInput.destinationDisplayName.getD transferInput.sourceDisplayName)).toOption =
      some ("alice-project-b0fbda915133a333c7633b82", "alice", "Local") := by decide +kernel
  obtain ⟨walked, hwalked, hentries⟩ := Option.map_eq_some_iff.mp hwalk
  cases hread : readProjectTransferCredentialBundle asciiCodec (homeWith apiKey) with
  | error error =>
    rw [hread] at hbundle
    cases hbundle
  | ok bundle =>
    refine ⟨_, bind_eq_ok hread (bind_eq_ok (ok_of_toOption hwalked)
      (bind_eq_ok hproduct (bind_eq_ok (ok_of_toOption hidentity) rfl))), ?_⟩
    rw [planOf, hentries]

/-- The sizes and the digests of the source files travel in the plan. -/
theorem credential_sizes_travel :
    ¬ ∀ (codec : Codec) (input : PlanInput) (stamp stamp' : Stamp) (left right : Source),
      left.home = right.home → NodeAlike codec [] left.tree right.tree →
      credentialSummary codec left = credentialSummary codec right →
      readAliceProjectProduct codec left = readAliceProjectProduct codec right →
      input.credentials = some .omitted →
      (planProjectTransfer codec input stamp left).map Plan.unstamped =
        (planProjectTransfer codec input stamp' right).map Plan.unstamped := by
  intro h
  have homes : (homeWith "k").home = (homeWith "kk").home := rfl
  have omitted : transferInput.credentials = some .omitted := rfl
  have hplans := h asciiCodec transferInput ⟨"a", ""⟩ ⟨"a", ""⟩ _ _ homes homeWith_alike
    homeWith_summary homeWith_product omitted
  obtain ⟨short, hshort, hshortEntries⟩ := plan_homeWith "k"
    (vaultEntryOf 51 "d0d9b1a86e2dec0d24f396832aa5fd89d9502c165910d83194869ee7e571894d")
    (by decide +kernel) rfl (by decide +kernel)
  obtain ⟨long, hlong, hlongEntries⟩ := plan_homeWith "kk"
    (vaultEntryOf 52 "ba551ef0b16935513218f7711c3fabd818602adcfb4cabd71016bd67595662a7")
    (by decide +kernel) rfl (by decide +kernel)
  rw [hshort, hlong] at hplans
  have hunstamped : short.unstamped = long.unstamped := Except.ok.inj hplans
  have hentries : short.unstamped.entries = long.unstamped.entries := by rw [hunstamped]
  change short.entries = long.entries at hentries
  -- Sorting moves the entries about but loses none.
  have hmem : vaultEntryOf 51 "d0d9b1a86e2dec0d24f396832aa5fd89d9502c165910d83194869ee7e571894d" ∈
      short.entries := by
    rw [hshortEntries]
    exact List.mem_mergeSort.mpr
      (List.mem_cons_of_mem _ (List.mem_cons_of_mem _ List.mem_cons_self))
  rw [hentries, hlongEntries] at hmem
  exact absurd (List.mem_mergeSort.mp hmem) (by decide +kernel)

end OpenAlice.Transfer
