import OpenAlice.Workspaces.Adapters.TomlOwned

/-!
# Injected TOML settings are taken back

`writeOwnedTomlConfig` keeps, next to what it injects, what was there before; `resetOwnedTomlConfig`
puts it back.  The state says that of the last call alone, and is written after the file.  So the
user's lines come back after calls that are `Orderly`: each lists what the last one has changed, its
entries are single lines of keys that differ, and none takes a line of the user away.  An entry that
a call leaves out is forgotten with the line that was there before it.
-/

namespace OpenAlice.Workspaces.Adapters

open Data Run

/-! ## Calls -/

/-- A call of `writeOwnedTomlConfig`, and whether it crashes between its two files. -/
structure TomlCall where
  entries : List OwnedTomlEntry
  legacyOwnedKeys : List Line := []
  crash : Bool := false

def TomlCall.keys (call : TomlCall) : List Line := call.entries.map OwnedTomlEntry.key

def tomlStep (files : TomlFiles) (call : TomlCall) : Option TomlFiles :=
  some (writeOwnedTomlConfig files call.legacyOwnedKeys call.entries call.crash)

def Takes (user : UserToml) (files : TomlFiles) (legacyOwnedKeys : List Line)
    (desired : OwnedTomlEntry) : Prop :=
  (∀ line ∈ desired.injected, IsLine line) ∧
    (desired.injected = none → lineOf user.top desired.key = none) ∧
      Once user.top desired.key ∧
        (∀ line ∈ user.within, keyOf line ≠ some desired.key) ∧
          (files.state = none → desired.key ∈ legacyOwnedKeys →
            lineOf user.top desired.key = none)

/-- A call that can be taken back: it throws for a key, or crashes without a change, or writes what
its state says enough of. -/
def Orderly (user : UserToml) (files : TomlFiles) (call : TomlCall) : Prop :=
  (∀ desired ∈ call.entries, isSafeKey desired.key = true) →
    if call.crash then
      ∀ desired ∈ call.entries,
        snapshot (splitToml files.config) desired.key = some desired.injected
    else
      call.keys.Nodup ∧ (∀ desired ∈ call.entries, Takes user files call.legacyOwnedKeys desired) ∧
        ∀ entry ∈ files.state.getD [], entry.injected ≠ entry.previous → entry.key ∈ call.keys

/-! ## One entry -/

section Entry

variable {user : UserToml} {files : TomlFiles} {legacyOwnedKeys : List Line}
  {old next : List OwnedTomlStateEntry} {top : List Line} {desired : OwnedTomlEntry}

def Pending (old next : List OwnedTomlStateEntry) (entry : OwnedTomlStateEntry) : Prop :=
  entry ∈ next ∨ (entry ∈ old ∧ entry.key ∉ next.map OwnedTomlStateEntry.key)

def UserToml.entry (user : UserToml) (desired : OwnedTomlEntry) : OwnedTomlStateEntry :=
  ⟨desired.key, lineOf user.top desired.key, desired.injected⟩

theorem writeEntry_eq (howns : Owns user (Pending (files.state.getD []) next) top)
    (htakes : Takes user files legacyOwnedKeys desired) (hsafe : isSafeKey desired.key = true)
    (hnew : desired.key ∉ next.map OwnedTomlStateEntry.key) :
    writeEntry files.state legacyOwnedKeys desired (top ++ user.rest, next) =
      some (putLine top desired.key desired.injected ++ user.rest,
        next ++ [user.entry desired]) := by
  obtain ⟨-, -, honce, -, hlegacy⟩ := htakes
  have happly : applyLine (top ++ user.rest) desired.key desired.injected =
      some (putLine top desired.key desired.injected ++ user.rest) :=
    applyLine_eq howns.topLevel hsafe (howns.once honce)
  rw [writeEntry, if_neg (by rw [hsafe]; exact Bool.noConfusion)]
  cases hprior : (files.state.getD []).reverse.find? (·.key = desired.key) with
  | some entry =>
    have hmem := List.mem_reverse.mp (List.mem_of_find?_eq_some hprior)
    have hkey : entry.key = desired.key :=
      of_decide_eq_true (List.find?_some (p := fun entry ↦ decide (OwnedTomlStateEntry.key entry = desired.key)) hprior)
    have hheld := howns.held entry (.inr ⟨hmem, hkey ▸ hnew⟩)
    rw [UserToml.entry, ← hkey, ← hheld.previous, hkey]
    simp only [happly, Option.pure_def, Option.bind_some, Option.bind_eq_bind]
  | none =>
    have hother : ∀ entry, Pending (files.state.getD []) next entry → entry.key ≠ desired.key := by
      rintro entry (hmem | ⟨hmem, -⟩) heq
      · exact hnew (heq ▸ List.mem_map_of_mem hmem)
      · have hnot := List.find?_eq_none.mp hprior entry (List.mem_reverse.mpr hmem)
        exact hnot (decide_eq_true heq)
    have hsnapshot := snapshot_eq howns.topLevel hsafe (howns.once honce)
    rw [howns.lineOf_eq hother] at hsnapshot
    by_cases hold : files.state = none ∧ desired.key ∈ legacyOwnedKeys
    · rw [UserToml.entry, hlegacy hold.1 hold.2]
      simp only [if_pos hold, happly, Option.pure_def, Option.bind_some, Option.bind_eq_bind]
    · simp only [if_neg hold, hsnapshot, happly, UserToml.entry, Option.pure_def, Option.bind_some,
        Option.bind_eq_bind]

theorem writeEntry_of_isSafeKey_false {s : List Line × List OwnedTomlStateEntry}
    (hsafe : isSafeKey desired.key = false) :
    writeEntry files.state legacyOwnedKeys desired s = none := by
  rw [writeEntry, if_pos hsafe]
  rfl

theorem Owns.write (howns : Owns user (Pending old next) top)
    (htakes : Takes user files legacyOwnedKeys desired) (hsafe : isSafeKey desired.key = true)
    (hnew : desired.key ∉ next.map OwnedTomlStateEntry.key) :
    Owns user (Pending old (next ++ [user.entry desired]))
      (putLine top desired.key desired.injected) := by
  obtain ⟨hline, hkept, honce, houtside, -⟩ := htakes
  refine (howns.put (user.entry desired) hsafe rfl
    (fun line ↦ keyOf_injected hsafe) hline hkept honce houtside).forget ?_ ?_
  · rintro entry (hmem | ⟨hmem, hnot⟩)
    · rcases List.mem_append.mp hmem with hmem | hmem
      · refine .inr ⟨.inl hmem, fun heq ↦ hnew ?_⟩
        exact List.mem_map.mpr ⟨entry, hmem, heq⟩
      · exact .inl (List.mem_singleton.mp hmem)
    · rw [List.map_append, List.mem_append, not_or] at hnot
      exact .inr ⟨.inr ⟨hmem, hnot.1⟩, fun heq ↦ hnot.2 (List.mem_singleton.mpr heq)⟩
  · rintro entry (rfl | ⟨hmem | ⟨hmem, hnot⟩, hne⟩) hnot'
    · exact absurd (.inl (List.mem_append_right _ (List.mem_singleton_self _))) hnot'
    · exact absurd (.inl (List.mem_append_left _ hmem)) hnot'
    · refine absurd (.inr ⟨hmem, ?_⟩) hnot'
      rw [List.map_append, List.mem_append, not_or]
      exact ⟨hnot, fun heq ↦ hne (List.mem_singleton.mp heq)⟩

end Entry

/-! ## Calls that write -/

section Write

variable {user : UserToml} {files : TomlFiles} {call : TomlCall}

/-- What holds between the calls. -/
structure TomlInv (user : UserToml) (files : TomlFiles) : Prop where
  owns : ∃ top, splitToml files.config = top ++ user.rest ∧ Owns user (· ∈ files.state.getD []) top
  nodup : ((files.state.getD []).map OwnedTomlStateEntry.key).Nodup

variable {entries : List OwnedTomlEntry}

theorem Owns.foldlM_write {legacyOwnedKeys : List Line}
    {next next' : List OwnedTomlStateEntry} {top lines : List Line}
    (howns : Owns user (Pending (files.state.getD []) next) top)
    (htakes : ∀ desired ∈ entries, Takes user files legacyOwnedKeys desired)
    (hnodup : (next.map OwnedTomlStateEntry.key ++ entries.map OwnedTomlEntry.key).Nodup)
    (h : entries.foldlM (fun s desired ↦ writeEntry files.state legacyOwnedKeys desired s)
      (top ++ user.rest, next) = some (lines, next')) :
    ∃ top', lines = top' ++ user.rest ∧ Owns user (Pending (files.state.getD []) next') top' ∧
      next'.map OwnedTomlStateEntry.key =
        next.map OwnedTomlStateEntry.key ++ entries.map OwnedTomlEntry.key ∧
      ∀ p : Line → Bool,
        (∀ desired ∈ entries, ∀ line, keyOf line = some desired.key → p line = false) →
        top'.filter p = top.filter p := by
  induction entries generalizing top next with
  | nil =>
    cases h
    exact ⟨top, rfl, howns, (List.append_nil _).symm, fun _ _ ↦ rfl⟩
  | cons desired entries ih =>
    obtain ⟨hfirst, htakes⟩ := List.forall_mem_cons.mp htakes
    rw [List.foldlM_cons] at h
    cases hsafe : isSafeKey desired.key with
    | false =>
      rw [writeEntry_of_isSafeKey_false hsafe] at h
      cases h
    | true =>
      have hnew : desired.key ∉ next.map OwnedTomlStateEntry.key := by
        intro hmem
        exact (List.nodup_append.mp hnodup).2.2 _ hmem _ (.head _) rfl
      rw [writeEntry_eq howns hfirst hsafe hnew] at h
      have hkeys : (next ++ [user.entry desired]).map OwnedTomlStateEntry.key ++
          entries.map OwnedTomlEntry.key =
          next.map OwnedTomlStateEntry.key ++ (desired :: entries).map OwnedTomlEntry.key := by
        rw [List.map_append, List.append_assoc]
        rfl
      obtain ⟨top', hlines, howns', hnext, hsame⟩ :=
        ih (howns.write hfirst hsafe hnew) htakes (hkeys.symm ▸ hnodup) h
      refine ⟨top', hlines, howns', hnext.trans hkeys, fun p hp ↦ ?_⟩
      obtain ⟨hline, hp⟩ := List.forall_mem_cons.mp hp
      rw [hsame p hp, filter_putLine (fun line ↦ keyOf_injected hsafe) p hline]

theorem applyLine_snapshot {lines : List Line} {key : Line} {saved : Option Line}
    (h : snapshot lines key = some saved) : applyLine lines key saved = some lines := by
  rw [snapshot, Option.map_eq_some_iff] at h
  obtain ⟨index, hindex, rfl⟩ := h
  rw [applyLine, hindex]
  cases index with
  | none => rfl
  | some i =>
    rw [Option.map_some, Option.bind_some]
    cases hline : lines[i]? with
    | none =>
      exact congrArg some (List.eraseIdx_of_length_le (List.getElem?_eq_none_iff.mp hline))
    | some line =>
      obtain ⟨hi, rfl⟩ := List.getElem?_eq_some_iff.mp hline
      exact congrArg some (List.set_getElem_self hi)

theorem writeEntry_unchanged {legacyOwnedKeys : List Line} {desired : OwnedTomlEntry}
    {next next' : List OwnedTomlStateEntry} {lines lines' : List Line}
    (hsame : snapshot lines desired.key = some desired.injected)
    (h : writeEntry files.state legacyOwnedKeys desired (lines, next) = some (lines', next')) :
    lines' = lines := by
  cases hsafe : isSafeKey desired.key with
  | false =>
    rw [writeEntry_of_isSafeKey_false hsafe] at h
    cases h
  | true =>
    rw [writeEntry, if_neg (by rw [hsafe]; exact Bool.noConfusion)] at h
    simp only [applyLine_snapshot hsame, hsame, Option.pure_def, Option.bind_some,
      Option.bind_eq_bind] at h
    split at h
    · cases h
      rfl
    split_ifs at h
    · cases h
      rfl
    · cases h
      rfl

theorem foldlM_unchanged {legacyOwnedKeys : List Line}
    {next next' : List OwnedTomlStateEntry} {lines lines' : List Line}
    (hsame : ∀ desired ∈ entries, snapshot lines desired.key = some desired.injected)
    (h : entries.foldlM (fun s desired ↦ writeEntry files.state legacyOwnedKeys desired s)
      (lines, next) = some (lines', next')) : lines' = lines := by
  induction entries generalizing next with
  | nil =>
    cases h
    rfl
  | cons desired entries ih =>
    obtain ⟨hfirst, hsame⟩ := List.forall_mem_cons.mp hsame
    rw [List.foldlM_cons] at h
    obtain ⟨⟨lines'', next''⟩, hentry, hrest⟩ := Option.bind_eq_some_iff.mp h
    obtain rfl : lines'' = lines := writeEntry_unchanged hfirst hentry
    exact ih hsame hrest

theorem isSafeKey_of_foldlM {legacyOwnedKeys : List Line}
    {s s' : List Line × List OwnedTomlStateEntry}
    (h : entries.foldlM (fun s desired ↦ writeEntry files.state legacyOwnedKeys desired s) s =
      some s') : ∀ desired ∈ entries, isSafeKey desired.key = true := by
  induction entries generalizing s with
  | nil =>
    intro desired hdesired
    cases hdesired
  | cons desired entries ih =>
    rw [List.foldlM_cons] at h
    obtain ⟨s'', hentry, hrest⟩ := Option.bind_eq_some_iff.mp h
    refine List.forall_mem_cons.mpr ⟨?_, ih hrest⟩
    by_contra hsafe
    rw [writeEntry_of_isSafeKey_false (Bool.eq_false_iff.mpr hsafe)] at hentry
    cases hentry

def others (keys lines : List Line) : List Line :=
  (topOf lines).filter (fun line ↦ keys.all fun key ↦ keyOf line ≠ some key) ++ restOf lines

theorem others_append {keys top rest : List Line} (h : TopLevel top rest) :
    others keys (top ++ rest) =
      top.filter (fun line ↦ keys.all fun key ↦ keyOf line ≠ some key) ++ rest := by
  rw [others, h.topOf_eq, h.restOf_eq]

theorem Owns.splitToml_writeLines {owned : OwnedTomlStateEntry → Prop} {top : List Line}
    (howns : Owns user owned top) (hinked : Inked user.lines) :
    splitToml (writeLines (top ++ user.rest)) = top ++ user.rest := by
  refine Adapters.splitToml_writeLines (fun line hline ↦ ?_) (howns.inked hinked)
  rcases List.mem_append.mp hline with hline | hline
  · exact howns.isLine line hline
  refine user.isLine_of_mem ?_
  rw [← user.top_append_rest]
  exact List.mem_append_right _ hline

theorem tomlInv_init {raw : Option (List Char)} (hraw : splitToml raw = user.lines) :
    TomlInv user ⟨raw, none⟩ where
  owns := by
    refine ⟨user.top, hraw.trans user.top_append_rest.symm, (owns_none user).forget ?_ ?_⟩
    · intro entry hentry
      cases hentry
    · exact fun _ h ↦ h.elim
  nodup := List.nodup_nil

/-- **The step lemma.**  A call that is orderly keeps what the state says of the file, and no line
but those of its keys changes. -/
theorem TomlInv.step {files' : TomlFiles} (hinked : Inked user.lines) (h : TomlInv user files)
    (hok : Orderly user files call) (hstep : tomlStep files call = some files') :
    TomlInv user files' ∧
      others call.keys (splitToml files'.config) = others call.keys (splitToml files.config) := by
  obtain ⟨top, hlines, howns⟩ := h.owns
  rw [tomlStep, Option.some.injEq, writeOwnedTomlConfig] at hstep
  cases hwrite : writeOwned files call.legacyOwnedKeys call.entries with
  | none =>
    rw [hwrite] at hstep
    obtain rfl : files = files' := hstep
    exact ⟨h, rfl⟩
  | some written =>
    obtain ⟨lines, next⟩ := written
    rw [hwrite] at hstep
    rw [writeOwned] at hwrite
    replace hok := hok (isSafeKey_of_foldlM hwrite)
    split_ifs at hok with hcrash
    · obtain rfl := foldlM_unchanged hok hwrite
      obtain rfl : _ = files' := hstep
      have hread := howns.splitToml_writeLines hinked
      rw [← hlines] at hread
      simp only [hcrash, if_true, hread]
      exact ⟨⟨⟨top, hread.trans hlines, howns⟩, h.nodup⟩, trivial⟩
    · obtain ⟨hnodup, htakes, hlisted⟩ := hok
      have hpending : Owns user (Pending (files.state.getD []) []) top := by
        refine howns.forget ?_ ?_
        · rintro entry (hmem | ⟨hmem, -⟩)
          · cases hmem
          · exact hmem
        · exact fun entry hmem hnot ↦ absurd (.inr ⟨hmem, List.not_mem_nil⟩) hnot
      rw [hlines] at hwrite
      obtain ⟨top', rfl, howns', hkeys, hsame⟩ := hpending.foldlM_write htakes hnodup hwrite
      have hread := howns'.splitToml_writeLines hinked
      obtain rfl : _ = files' := hstep
      simp only [hcrash, if_false, Bool.false_eq_true, hread]
      refine ⟨⟨⟨top', hread, howns'.forget (fun entry hmem ↦ .inl hmem) ?_⟩, ?_⟩, ?_⟩
      · rintro entry (hmem | ⟨hmem, hnot⟩) hnext
        · exact absurd hmem hnext
        · by_contra hne
          exact hnot (hkeys ▸ hlisted entry hmem hne)
      · exact hkeys ▸ hnodup
      · rw [hlines, others_append howns'.topLevel, others_append howns.topLevel]
        refine congrArg (· ++ user.rest) (hsame _ fun desired hdesired line hline ↦ ?_)
        refine Bool.eq_false_iff.mpr fun hall ↦ ?_
        exact of_decide_eq_true
          (List.all_eq_true.mp hall desired.key (List.mem_map_of_mem hdesired)) hline

end Write

/-! ## Reset -/

section Reset

variable {user : UserToml} {files : TomlFiles}

theorem resetEntry_eq {owned : OwnedTomlStateEntry → Prop} {top : List Line}
    {entry : OwnedTomlStateEntry} (howns : Owns user owned top) (hentry : owned entry) :
    resetEntry (top ++ user.rest) entry =
      some (putLine top entry.key entry.previous ++ user.rest) := by
  have hheld := howns.held entry hentry
  have hsnapshot := snapshot_eq howns.topLevel hheld.safe hheld.once
  rw [hheld.injected] at hsnapshot
  simp only [resetEntry, hsnapshot, Option.bind_eq_bind, Option.bind_some, if_true]
  exact applyLine_eq howns.topLevel hheld.safe hheld.once

variable {entries : List OwnedTomlStateEntry}

theorem Owns.foldlM_reset {top : List Line}
    (howns : Owns user (· ∈ entries) top) (hnodup : entries.Nodup) :
    entries.foldlM resetEntry (top ++ user.rest) = some user.lines := by
  induction entries generalizing top with
  | nil =>
    rw [howns.eq_of_none fun _ ↦ List.not_mem_nil, user.top_append_rest]
    rfl
  | cons entry entries ih =>
    obtain ⟨hnot, hnodup⟩ := List.nodup_cons.mp hnodup
    rw [List.foldlM_cons, resetEntry_eq howns (.head _)]
    refine ih ((howns.giveBack (.head _)).forget ?_ ?_) hnodup
    · rintro other hother
      exact ⟨.tail _ hother, fun heq ↦ hnot (heq ▸ hother)⟩
    rintro other ⟨hother, hne⟩ hnot'
    rcases List.mem_cons.mp hother with heq | hother
    · exact absurd heq hne
    · exact absurd hother hnot'

theorem foldlM_legacy {legacyOwnedKeys : List Line}
    (hlegacy : ∀ key ∈ legacyOwnedKeys, isSafeKey key = true ∧ lineOf user.top key = none) :
    legacyOwnedKeys.foldlM (fun lines key ↦ applyLine lines key none) user.lines =
      some user.lines := by
  induction legacyOwnedKeys with
  | nil => rfl
  | cons key keys ih =>
    obtain ⟨⟨hsafe, hnone⟩, hlegacy⟩ := List.forall_mem_cons.mp hlegacy
    have hlacks := lineOf_eq_none_iff.mp hnone
    have happly : applyLine user.lines key none = some user.lines := by
      have heq : applyLine (user.top ++ user.rest) key none =
          some (putLine user.top key none ++ user.rest) :=
        applyLine_eq user.topLevel hsafe (once_of_lacks hlacks)
      rwa [putLine, dropKey_of_lacks hlacks, user.top_append_rest] at heq
    rw [List.foldlM_cons, happly]
    exact ih hlegacy

theorem TomlInv.reset (h : TomlInv user files) (hinked : Inked user.lines)
    {legacyOwnedKeys : List Line}
    (hlegacy : files.state = none →
      ∀ key ∈ legacyOwnedKeys, isSafeKey key = true ∧ lineOf user.top key = none) :
    ∃ files', resetOwnedTomlConfig files legacyOwnedKeys = some files' ∧
      splitToml files'.config = user.lines ∧ files'.state = none := by
  obtain ⟨top, hlines, howns⟩ := h.owns
  have hread : splitToml (writeLines user.lines) = user.lines :=
    Adapters.splitToml_writeLines (fun line ↦ user.isLine_of_mem) hinked
  obtain ⟨config, state⟩ := files
  cases state with
  | none =>
    have htop := howns.eq_of_none fun _ ↦ List.not_mem_nil
    rw [htop, user.top_append_rest] at hlines
    refine ⟨⟨writeLines user.lines, none⟩, ?_, hread, rfl⟩
    simp only [resetOwnedTomlConfig, hlines, foldlM_legacy (hlegacy rfl), Option.map_some]
  | some entries =>
    cases config with
    | none =>
      -- The file is gone, so no line of it was the user's.
      obtain ⟨rfl, hrest⟩ := List.append_eq_nil_iff.mp hlines.symm
      have htop := howns.patched.eq_of_lacks fun _ _ ↦ List.forall_mem_nil _
      refine ⟨⟨none, none⟩, rfl, ?_, rfl⟩
      rw [← user.top_append_rest, ← htop, hrest]
      rfl
    | some raw =>
      refine ⟨⟨writeLines user.lines, none⟩, ?_, hread, rfl⟩
      have hnodup : entries.Nodup :=
        List.Pairwise.of_map _ (fun _ _ hne heq ↦ hne (congrArg _ heq)) h.nodup
      have hreset := howns.foldlM_reset hnodup
      simp only [Option.getD_some] at hreset
      simp only [resetOwnedTomlConfig, hlines, hreset, Option.map_some]

/-! ### After an edit -/

def edited (entries : List OwnedTomlStateEntry) (lines : List Line) : List Line :=
  (topOf lines).filter (fun line ↦ entries.all fun entry ↦ entry.injected ≠ some line) ++
    restOf lines

def GivesBack (entry : OwnedTomlStateEntry) : Prop :=
  isSafeKey entry.key = true ∧ ∀ line, entry.previous = some line → keyOf line = some entry.key

theorem TopLevel.putLine {top rest : List Line} {key : Line} {saved : Option Line}
    (h : TopLevel top rest) (hsaved : ∀ line, saved = some line → keyOf line = some key) :
    TopLevel (Adapters.putLine top key saved) rest where
  top line hline := by
    rcases mem_putLine hline with hline | hline
    · exact h.top line hline
    · exact isSection_of_keyOf (hsaved line hline)
  rest := h.rest

theorem resetEntry_sublist {top rest lines : List Line} {entry : OwnedTomlStateEntry}
    (h : TopLevel top rest) (hback : GivesBack entry)
    (hreset : resetEntry (top ++ rest) entry = some lines) (p : Line → Bool)
    (hp : ∀ line, entry.injected = some line → p line = false) :
    ∃ top', lines = top' ++ rest ∧ TopLevel top' rest ∧ (top.filter p).Sublist top' := by
  obtain ⟨hsafe, hprevious⟩ := hback
  rw [resetEntry] at hreset
  obtain ⟨saved, hsaved, hreset⟩ := Option.bind_eq_some_iff.mp hreset
  split_ifs at hreset with heq
  · obtain ⟨index, hindex, -⟩ := Option.map_eq_some_iff.mp hsaved
    have honce := once_of_find h hsafe hindex
    rw [applyLine_eq h hsafe honce] at hreset
    rw [snapshot_eq h hsafe honce] at hsaved
    refine ⟨_, (Option.some.inj hreset).symm, h.putLine hprevious,
      sublist_putLine p fun line hline hpline hkey ↦ ?_⟩
    rw [honce.lineOf_eq hline hkey, heq, Option.some.injEq] at hsaved
    rw [hp line hsaved.symm] at hpline
    cases hpline
  · cases hreset
    exact ⟨top, rfl, h, List.filter_sublist⟩

theorem foldlM_resetEntry_sublist {top rest lines : List Line} (h : TopLevel top rest)
    (hback : ∀ entry ∈ entries, GivesBack entry)
    (hreset : entries.foldlM resetEntry (top ++ rest) = some lines) (p : Line → Bool)
    (hp : ∀ entry ∈ entries, ∀ line, entry.injected = some line → p line = false) :
    ∃ top', lines = top' ++ rest ∧ (top.filter p).Sublist top' := by
  induction entries generalizing top with
  | nil =>
    cases hreset
    exact ⟨top, rfl, List.filter_sublist⟩
  | cons entry entries ih =>
    obtain ⟨hfirst, hback⟩ := List.forall_mem_cons.mp hback
    obtain ⟨hpfirst, hp⟩ := List.forall_mem_cons.mp hp
    rw [List.foldlM_cons] at hreset
    obtain ⟨lines', hentry, hrest⟩ := Option.bind_eq_some_iff.mp hreset
    obtain ⟨top₁, rfl, htop₁, hsub₁⟩ := resetEntry_sublist h hfirst hentry p hpfirst
    obtain ⟨top', hlines, hsub⟩ := ih htop₁ hback hrest hp
    refine ⟨top', hlines, ?_⟩
    have hfiltered := hsub₁.filter p
    rw [List.filter_filter, funext fun line ↦ Bool.and_self (p line)] at hfiltered
    exact hfiltered.trans hsub

theorem reset_edited {raw : Option (List Char)} {legacyOwnedKeys : List Line} {files' : TomlFiles}
    (hback : ∀ entry ∈ entries, GivesBack entry)
    (hreset : resetOwnedTomlConfig ⟨raw, some entries⟩ legacyOwnedKeys = some files') :
    ∃ lines, files'.config = writeLines lines ∧ (edited entries (splitToml raw)).Sublist lines := by
  cases raw with
  | none =>
    obtain rfl := Option.some.inj hreset
    exact ⟨[], rfl, List.Sublist.refl []⟩
  | some raw =>
    obtain ⟨lines, hfold, rfl⟩ := Option.map_eq_some_iff.mp hreset
    rw [← topOf_append_restOf (splitToml (some raw))] at hfold
    have hp : ∀ entry ∈ entries, ∀ line, entry.injected = some line →
        (entries.all fun entry ↦ entry.injected ≠ some line) = false :=
      fun entry hentry line hline ↦ Bool.eq_false_iff.mpr fun hall ↦
        of_decide_eq_true (List.all_eq_true.mp hall entry hentry) hline
    obtain ⟨top', rfl, hsub⟩ := foldlM_resetEntry_sublist (topLevel_span _) hback hfold _ hp
    exact ⟨_, rfl, hsub.append (List.Sublist.refl _)⟩

end Reset

/-! ## Runs -/

section Runs

variable {user : UserToml} {raw : Option (List Char)} {files : TomlFiles}

structure Restorable (user : UserToml) (files : TomlFiles) : Prop where
  reset : ∀ legacyOwnedKeys : List Line, (files.state = none →
      ∀ key ∈ legacyOwnedKeys, isSafeKey key = true ∧ lineOf user.top key = none) →
    ∃ files', resetOwnedTomlConfig files legacyOwnedKeys = some files' ∧
      splitToml files'.config = user.lines
  owned : (user.others ((files.state.getD []).map OwnedTomlStateEntry.key)).Sublist
    (splitToml files.config)
  /-- The next call changes no line but the assignments of its keys. -/
  write : ∀ call files', Orderly user files call → tomlStep files call = some files' →
    others call.keys (splitToml files'.config) = others call.keys (splitToml files.config)
  /-- Whatever the file is edited to, reset keeps all lines but those that were injected. -/
  edit : ∀ entries, files.state = some entries → ∀ raw legacyOwnedKeys files',
    resetOwnedTomlConfig ⟨raw, some entries⟩ legacyOwnedKeys = some files' →
    ∃ lines, files'.config = writeLines lines ∧ (edited entries (splitToml raw)).Sublist lines

theorem TomlInv.owned (h : TomlInv user files) :
    (user.others ((files.state.getD []).map OwnedTomlStateEntry.key)).Sublist
      (splitToml files.config) := by
  obtain ⟨top, hlines, howns⟩ := h.owns
  rw [user.others_eq, hlines]
  · refine List.Sublist.append ?_ (List.Sublist.refl _)
    rw [← howns.patched.filter_eq]
    · exact List.filter_sublist
    rintro line _ ⟨entry, hentry, rfl⟩ hkey
    refine Bool.eq_false_iff.mpr fun hall ↦ ?_
    exact of_decide_eq_true (List.all_eq_true.mp hall entry.key (List.mem_map_of_mem hentry)) hkey
  · intro line hline key hkey
    obtain ⟨entry, hentry, rfl⟩ := List.mem_map.mp hkey
    exact (howns.held entry hentry).outside line hline

/-- **Injected TOML settings are reversible**, after calls that are orderly. -/
theorem toml_restorable (user : UserToml) (hinked : Inked user.lines)
    (hraw : splitToml raw = user.lines)
    (h : Reach tomlStep (Orderly user) ⟨raw, none⟩ files) : Restorable user files := by
  have hinv : TomlInv user files :=
    h.invariant (tomlInv_init hraw) fun _ _ _ hinv hok hstep ↦ (hinv.step hinked hok hstep).1
  refine ⟨fun legacyOwnedKeys hlegacy ↦ ?_, hinv.owned,
    fun call files' hok hstep ↦ (hinv.step hinked hok hstep).2, ?_⟩
  · obtain ⟨files', hreset, hlines, -⟩ := hinv.reset hinked hlegacy
    exact ⟨files', hreset, hlines⟩
  intro entries hstate raw' legacyOwnedKeys files' hreset
  obtain ⟨top, -, howns⟩ := hinv.owns
  rw [hstate] at howns
  refine reset_edited (fun entry hentry ↦ ?_) hreset
  exact ⟨(howns.held entry hentry).safe, howns.keyOf_previous hentry⟩

/-! ### A run -/

instance (line : Line) : Decidable (IsLine line) := inferInstanceAs (Decidable (_ ∧ _))

instance (top : List Line) (key : Line) : Decidable (Once top key) :=
  inferInstanceAs (Decidable (_ ≤ _))

instance (user : UserToml) (files : TomlFiles) (legacyOwnedKeys : List Line)
    (desired : OwnedTomlEntry) : Decidable (Takes user files legacyOwnedKeys desired) :=
  inferInstanceAs (Decidable (_ ∧ _ ∧ _ ∧ _ ∧ _))

instance (user : UserToml) (files : TomlFiles) (call : TomlCall) :
    Decidable (Orderly user files call) :=
  inferInstanceAs (Decidable ((∀ desired ∈ call.entries, isSafeKey desired.key = true) →
    if call.crash = true then
      ∀ desired ∈ call.entries,
        snapshot (splitToml files.config) desired.key = some desired.injected
    else
      call.keys.Nodup ∧ (∀ desired ∈ call.entries, Takes user files call.legacyOwnedKeys desired) ∧
        ∀ entry ∈ files.state.getD [], entry.injected ≠ entry.previous → entry.key ∈ call.keys))

/-- A file with a comment, an assignment, a value of two lines, and a section. -/
def sampleToml : UserToml where
  marked := [("# c".toList, false), ("m = 0".toList, false), ("s = [".toList, false),
    ("1 ]".toList, true), ("[t]".toList, false), ("a = 7".toList, false)]
  isLine := by decide

def sampleRaw : Option (List Char) := some "# c\r\nm = 0\r\ns = [\n1 ]\n[t]\na = 7".toList

def sampleCalls : List TomlCall :=
  [{ entries := [⟨['m'], some ['1']⟩, ⟨['a'], some ['2']⟩] },
    { entries := [⟨['m'], some ['3']⟩, ⟨['a'], none⟩] },
    { entries := [⟨['m'], some ['3']⟩], crash := true }]

theorem toml_restorable_sample :
    Restorable sampleToml (after tomlStep ⟨sampleRaw, none⟩ sampleCalls) := by
  have hok : ExecOk tomlStep (Orderly sampleToml) ⟨sampleRaw, none⟩ sampleCalls := by decide
  exact toml_restorable sampleToml (.inr ⟨"# c".toList, by decide, by decide⟩) (by decide)
    (.of_execOk rfl hok)

/-- **A forgotten entry stays.**  After a call for `a` and one for `b`, reset leaves `a` there. -/
theorem forgotten_stays : ∃ files files', exec tomlStep ⟨none, none⟩
        [{ entries := [⟨['a'], some ['1']⟩] }, { entries := [⟨['b'], some ['2']⟩] }] = some files ∧
      resetOwnedTomlConfig files [] = some files' ∧
      splitToml files'.config = ["a = 1".toList] ∧ splitToml none ≠ ["a = 1".toList] :=
  ⟨_, _, rfl, rfl, by decide, by decide⟩

end Runs

end OpenAlice.Workspaces.Adapters
