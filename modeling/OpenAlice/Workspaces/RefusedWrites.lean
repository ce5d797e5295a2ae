import OpenAlice.Workspaces.SessionRoster

/-!
# Changes whose write fails

`WorkspaceRegistry`, `ResumeRegistry` and `SessionRegistry` of `src/workspaces` keep their records
in memory.  A mutation changes them there, then writes all of them to a temporary file and
renames it over the file; when that fails, the call rejects.

Only `WorkspaceRegistry.add` takes its change back then.  After every other mutation the change
stays in memory, and the next write of the registry persists it.  So a refused call leaves no
trace exactly if it is an `add` or says what the records say already (`no_trace_iff`).

A registry is modelled by what is in memory and what its file holds, between two calls.  The
bindings of the runtimes are in a store of their own, which `ResumeRegistry` reads when it loads.
-/

namespace OpenAlice.Workspaces

/-! ## Registries that write after a change -/

/-- A registry with memory `M` and a file of `F`, and its mutations. -/
structure Persisted (M F C : Type) where
  /-- What a mutation leaves in memory when it writes; `none` if it does not get there. -/
  change : M → C → Option M
  payload : M → F
  undo : C → M → M
  /-- What is in memory after a restart. -/
  reload : M → F → M

namespace Persisted

variable {M F C : Type} (R : Persisted M F C)

def succeed (s : M × F) (c : C) : Option (M × F) :=
  (R.change s.1 c).map fun memory ↦ (memory, R.payload memory)

/-- A mutation whose write fails, so that the call rejects. -/
def refuse (s : M × F) (c : C) : Option (M × F) :=
  (R.change s.1 c).map fun memory ↦ (R.undo c memory, s.2)

def restart (s : M × F) (c : C) : Option M := (R.succeed s c).map fun t ↦ R.reload t.1 t.2

/-- A refused mutation leaves no trace: whatever is read is read from the same memory, and after
a mutation that succeeds and a restart it is as if the refused one had not been tried. -/
structure NoTrace (s : M × F) (c : C) : Prop where
  reads : ∀ t, R.refuse s c = some t → t.1 = s.1
  later : ∀ t, R.refuse s c = some t → ∀ c', R.restart t c' = R.restart s c'

theorem noTrace_iff (s : M × F) (c : C) :
    R.NoTrace s c ↔ ∀ memory, R.change s.1 c = some memory → R.undo c memory = s.1 := by
  constructor
  · intro h memory hchange
    exact h.reads (R.undo c memory, s.2) (Option.map_eq_some_iff.mpr ⟨memory, hchange, rfl⟩)
  intro h
  have hsame : ∀ t, R.refuse s c = some t → t = s := by
    intro t ht
    obtain ⟨memory, hchange, rfl⟩ := Option.map_eq_some_iff.mp ht
    rw [h memory hchange]
  constructor
  · intro t ht
    rw [hsame t ht]
  · intro t ht c'
    rw [hsame t ht]

/-- Where nothing is taken back, the mutation must not have changed anything. -/
theorem noTrace_iff_of_change {R : Persisted M F C} {s : M × F} {c : C} {memory : M}
    (h : R.change s.1 c = some memory) (hundo : ∀ memory, R.undo c memory = memory) :
    R.NoTrace s c ↔ memory = s.1 := by
  rw [noTrace_iff]
  constructor
  · intro hback
    exact (hundo memory).symm.trans (hback memory h)
  intro heq memory' hchange
  rw [hundo, ← heq]
  exact Option.some.inj (hchange.symm.trans h)

end Persisted

theorem map_ite_eq_self {α : Type} {l : List α} {p : α → Bool} {f : α → α} :
    l.map (fun a ↦ if p a then f a else a) = l ↔ ∀ a ∈ l, p a → f a = a := by
  have hmap := List.map_inj_left (l := l) (f := fun a ↦ if p a then f a else a) (g := id)
  rw [List.map_id] at hmap
  refine hmap.trans (forall₂_congr fun a _ ↦ ?_)
  by_cases hp : p a = true <;> simp [hp]

/-! ## Workspaces -/

/-- `WorkspaceMeta` -/
structure WorkspaceEntry where
  id : String
  tag : String
  dir : String
  createdAt : String
  template : Option String := none
  spawnedFromVersion : Option String := none
deriving DecidableEq

/-- The memory of a `WorkspaceRegistry`, in the order of insertion. -/
structure WorkspaceMemory where
  byId : List WorkspaceEntry := []
  tagsInUse : List String := []
deriving DecidableEq

inductive WorkspaceCall where
  | add (ws : WorkspaceEntry)
  | remove (id : String)

/-- `byId.delete(id)` and `tagsInUse.delete(tag)` -/
def WorkspaceMemory.drop (s : WorkspaceMemory) (id tag : String) : WorkspaceMemory where
  byId := s.byId.filter (·.id ≠ id)
  tagsInUse := s.tagsInUse.filter (· ≠ tag)

def workspaceRegistry : Persisted WorkspaceMemory (List WorkspaceEntry) WorkspaceCall where
  change
    | s, .add ws =>
      if s.byId.any (·.id = ws.id) then none
      else if ws.tag ∈ s.tagsInUse then none
      else some ⟨s.byId ++ [ws], s.tagsInUse ++ [ws.tag]⟩
    | s, .remove id => (s.byId.find? (·.id = id)).map fun ws ↦ s.drop id ws.tag
  payload s := s.byId
  undo
    | .add ws, s => s.drop ws.id ws.tag
    | .remove _, s => s
  reload _ entries := ⟨entries, (entries.map WorkspaceEntry.tag).dedup⟩

def WorkspaceCall.Idle : WorkspaceCall → Prop
  | .add _ => True
  | .remove _ => False

/-! ## Resume identities -/

inductive SessionPresence where
  | active
  | archived
  | deleted
deriving DecidableEq

def canTransitionPresence (source target : SessionPresence) : Bool :=
  source = target || match source, target with
    | .active, .archived | .archived, .active | .archived, .deleted | .deleted, .archived => true
    | _, _ => false

/-- `ResumeIdentityRecord`, with bindings and metadata in the text that `JSON.stringify` gives. -/
structure ResumeIdentityRecord where
  resumeId : String
  wsId : String
  agent : String
  runtimeBinding : Option String := none
  displayName : Option String := none
  agentSessionId : Option String := none
  latestTaskId : Option String := none
  createdAt : Int
  updatedAt : Int
  /-- `lifecycle` is `retired`. -/
  retired : Bool := false
  presence : Option SessionPresence := none
  retiredAt : Option Int := none
  retirementReason : Option String := none
  successorResumeId : Option String := none
  metadata : Option String := none

/-- `sessionPresence` -/
def ResumeIdentityRecord.shownPresence (record : ResumeIdentityRecord) : SessionPresence :=
  record.presence.getD .active

structure SessionDossier where
  ai : Option String := none
  displayName : Option String := none

/-- The memory of a `ResumeRegistry`, and the store of the bindings. -/
structure ResumeMemory where
  records : List ResumeIdentityRecord := []
  dossiers : String → SessionDossier := fun _ ↦ {}

/-- `runtimeBindings.ensure`; it rejects if the session owns another binding. -/
def ResumeMemory.ensureBinding (s : ResumeMemory) (resumeId binding : String) :
    Option ResumeMemory :=
  match (s.dossiers resumeId).ai with
  | some ai => if ai = binding then some s else none
  | none => some { s with
      dossiers := Function.update s.dossiers resumeId
        { s.dossiers resumeId with ai := some binding } }

/-- What `ensure` is given; without a resume id it makes one up. -/
structure EnsureInput where
  resumeId : String
  wsId : String
  agent : String
  agentSessionId : Option String := none
  latestTaskId : Option String := none
  runtimeBinding : Option String := none
  metadata : Option String := none
  now : Int

inductive ResumeCall where
  | ensure (input : EnsureInput)
  | setPresence (resumeId wsId : String) (presence : SessionPresence) (now : Int)
  | bindAgentSessionId (resumeId agentSessionId : String) (now : Int)
  | retireWorkspace (wsId reason : String) (successors : String → Option String) (now : Int)
  | recallWorkspace (wsId : String) (now : Int)

/-- A text that is given and not empty takes the place of another. -/
def insteadOf (old new : Option String) : Option String :=
  if new.getD "" = "" then old else new

/-- `ensure` may go on with a record. -/
def EnsureInput.admits (input : EnsureInput) (existing : ResumeIdentityRecord) : Bool :=
  existing.wsId = input.wsId && existing.agent = input.agent && !existing.retired &&
    existing.shownPresence ≠ .deleted &&
    (input.runtimeBinding.isNone || existing.runtimeBinding.isNone ||
      input.runtimeBinding = existing.runtimeBinding)

/-- What `ensure` makes of a record. -/
def EnsureInput.renew (input : EnsureInput) (record : ResumeIdentityRecord) :
    ResumeIdentityRecord :=
  { record with
    runtimeBinding := record.runtimeBinding <|> input.runtimeBinding
    agentSessionId := insteadOf record.agentSessionId input.agentSessionId
    latestTaskId := insteadOf record.latestTaskId input.latestTaskId
    updatedAt := input.now }

def EnsureInput.record (input : EnsureInput) : ResumeIdentityRecord where
  resumeId := input.resumeId
  wsId := input.wsId
  agent := input.agent
  createdAt := input.now
  updatedAt := input.now
  agentSessionId := insteadOf none input.agentSessionId
  latestTaskId := insteadOf none input.latestTaskId
  runtimeBinding := input.runtimeBinding
  metadata := input.metadata

/-- `records.get(resumeId)` -/
def ResumeMemory.get (s : ResumeMemory) (resumeId : String) : Option ResumeIdentityRecord :=
  s.records.find? (·.resumeId = resumeId)

def ResumeMemory.modify (s : ResumeMemory) (p : ResumeIdentityRecord → Bool)
    (f : ResumeIdentityRecord → ResumeIdentityRecord) : ResumeMemory :=
  { s with records := s.records.map fun record ↦ if p record then f record else record }

/-- `setPresence` may go on with a record. -/
def admitsPresence (wsId : String) (presence : SessionPresence) (record : ResumeIdentityRecord) :
    Bool :=
  record.wsId = wsId && !record.retired && canTransitionPresence record.shownPresence presence

def withPresence (presence : SessionPresence) (now : Int) (record : ResumeIdentityRecord) :
    ResumeIdentityRecord :=
  { record with
    presence := if presence = .active then none else some presence
    updatedAt := now }

def retire (reason : String) (successors : String → Option String) (now : Int)
    (record : ResumeIdentityRecord) : ResumeIdentityRecord :=
  { record with
    retired := true
    retiredAt := some now
    retirementReason := some reason
    successorResumeId := insteadOf record.successorResumeId (successors record.resumeId)
    updatedAt := now }

def recalled (now : Int) (record : ResumeIdentityRecord) : ResumeIdentityRecord :=
  { record with
    retired := false
    retiredAt := none
    retirementReason := none
    successorResumeId := none
    updatedAt := now }

def ResumeMemory.change (s : ResumeMemory) : ResumeCall → Option ResumeMemory
  | .ensure input =>
    match s.get input.resumeId with
    | some existing =>
      if input.admits existing then
        (match input.runtimeBinding, existing.runtimeBinding with
          | some binding, none => s.ensureBinding input.resumeId binding
          | _, _ => some s).map fun t : ResumeMemory ↦
            t.modify (·.resumeId = input.resumeId) input.renew
      else none
    | none =>
      (match input.runtimeBinding with
        | some binding => s.ensureBinding input.resumeId binding
        | none => some s).map fun t : ResumeMemory ↦
          { t with records := t.records ++ [input.record] }
  | .setPresence resumeId wsId presence now =>
    match s.get resumeId with
    | some record =>
      if admitsPresence wsId presence record then
        some (s.modify (·.resumeId = resumeId) (withPresence presence now))
      else none
    | none => none
  | .bindAgentSessionId resumeId agentSessionId now =>
    match s.get resumeId with
    | some record =>
      if record.agentSessionId = some agentSessionId then none
      else some (s.modify (·.resumeId = resumeId) fun record ↦
        { record with agentSessionId := some agentSessionId, updatedAt := now })
    | none => none
  | .retireWorkspace wsId reason successors now =>
    if s.records.any (·.wsId = wsId) then
      some (s.modify (·.wsId = wsId) (retire reason successors now))
    else none
  | .recallWorkspace wsId now =>
    if s.records.any fun record ↦ record.wsId = wsId && record.retired then
      some (s.modify (fun record ↦ record.wsId = wsId && record.retired) (recalled now))
    else none

/-- What `flushNow` leaves out of a record. -/
def ResumeIdentityRecord.written (record : ResumeIdentityRecord) : ResumeIdentityRecord :=
  { record with runtimeBinding := none, displayName := none }

def ResumeMemory.hydrate (s : ResumeMemory) (record : ResumeIdentityRecord) :
    ResumeIdentityRecord :=
  { record with
    runtimeBinding := (s.dossiers record.resumeId).ai
    displayName := (s.dossiers record.resumeId).displayName
    presence := record.presence.filter (· ≠ .active) }

def resumeRegistry : Persisted ResumeMemory (List ResumeIdentityRecord) ResumeCall where
  change := ResumeMemory.change
  payload s := s.records.map ResumeIdentityRecord.written
  undo _ s := s
  reload s records := { s with records := records.map s.hydrate }

def ResumeCall.Idle (s : ResumeMemory) : ResumeCall → Prop
  | .ensure input => (∃ record, s.get input.resumeId = some record) ∧
      ∀ record ∈ s.records, record.resumeId = input.resumeId →
        (record.runtimeBinding = none → input.runtimeBinding = none) ∧
        (input.agentSessionId.getD "" = "" ∨ record.agentSessionId = input.agentSessionId) ∧
        (input.latestTaskId.getD "" = "" ∨ record.latestTaskId = input.latestTaskId) ∧
        record.updatedAt = input.now
  | .setPresence resumeId _ presence now => ∀ record ∈ s.records, record.resumeId = resumeId →
      record.updatedAt = now ∧
      record.presence = if presence = .active then none else some presence
  | .retireWorkspace wsId reason successors now => ∀ record ∈ s.records, record.wsId = wsId →
      record.updatedAt = now ∧ record.retired = true ∧ record.retiredAt = some now ∧
      record.retirementReason = some reason ∧
      ((successors record.resumeId).getD "" = "" ∨
        record.successorResumeId = successors record.resumeId)
  | .bindAgentSessionId _ _ _ | .recallWorkspace _ _ => False

/-! ## Sessions -/

def rosterChange (records : List SessionRecord) (call : SessionCall) :
    Option (List SessionRecord) :=
  match call with
  | .ensureLoaded => none
  | .create record =>
    if records.any (·.id = record.id) || records.any (·.resumeId = record.resumeId) then none
    else some (call.effect records)
  | .update id _ | .remove id =>
    if records.any (·.id = id) then some (call.effect records) else none
  | .removeAllFor => if records = [] then none else some (call.effect records)

/-- The `SessionRegistry` of a workspace whose file is loaded. -/
def sessionRegistry : Persisted (List SessionRecord) (List SessionRecord) SessionCall where
  change := rosterChange
  payload records := records
  undo _ records := records
  reload _ records := records

def SessionCall.Idle (records : List SessionRecord) : SessionCall → Prop
  | .update id patch => ∀ record ∈ records, record.id = id → patch.assign record = record
  | _ => False

/-! ## The law -/

theorem workspace_noTrace {s : WorkspaceMemory × List WorkspaceEntry} {c : WorkspaceCall}
    (h : (workspaceRegistry.change s.1 c).isSome) : workspaceRegistry.NoTrace s c ↔ c.Idle := by
  obtain ⟨memory, hmemory⟩ := Option.isSome_iff_exists.mp h
  rw [Persisted.noTrace_iff]
  constructor
  · intro hback
    have hmemory' := hback memory hmemory
    cases c with
    | add ws => trivial
    | remove id =>
      obtain ⟨ws, hfind, rfl⟩ := Option.map_eq_some_iff.mp hmemory
      have hdropped : s.1.byId.filter (·.id ≠ id) = s.1.byId :=
        congrArg WorkspaceMemory.byId hmemory'
      have hid := List.filter_eq_self.mp hdropped ws (List.mem_of_find?_eq_some hfind)
      have hsame := List.find?_some hfind
      simp_all
  · intro hidle memory' hchange
    cases c with
    | remove id => exact hidle.elim
    | add ws =>
      simp only [workspaceRegistry, Option.ite_none_left_eq_some] at hchange
      obtain ⟨hid, htag, hchange⟩ := hchange
      cases hchange
      rw [Bool.not_eq_true, List.any_eq_false] at hid
      have hids : s.1.byId.filter (·.id ≠ ws.id) = s.1.byId :=
        List.filter_eq_self.mpr fun other hother ↦ by simpa using hid other hother
      have htags : s.1.tagsInUse.filter (· ≠ ws.tag) = s.1.tagsInUse :=
        List.filter_eq_self.mpr fun tag hmem ↦ by
          simpa using fun heq : tag = ws.tag ↦ htag (heq ▸ hmem)
      show WorkspaceMemory.drop _ _ _ = _
      rw [WorkspaceMemory.drop, List.filter_append, List.filter_append, hids, htags]
      simp

theorem modify_eq_self {s : ResumeMemory} {p : ResumeIdentityRecord → Bool}
    {f : ResumeIdentityRecord → ResumeIdentityRecord} :
    s.modify p f = s ↔ ∀ record ∈ s.records, p record → f record = record := by
  rw [← map_ite_eq_self]
  constructor
  · intro heq
    exact congrArg ResumeMemory.records heq
  · intro heq
    exact congrArg (ResumeMemory.mk · s.dossiers) heq

theorem insteadOf_eq_self {old new : Option String} :
    insteadOf old new = old ↔ new.getD "" = "" ∨ old = new := by
  unfold insteadOf
  split_ifs with hempty
  · simp [hempty]
  · simp [hempty, eq_comm]

theorem renew_eq_self {input : EnsureInput} {record : ResumeIdentityRecord} :
    input.renew record = record ↔ (record.runtimeBinding = none → input.runtimeBinding = none) ∧
      (input.agentSessionId.getD "" = "" ∨ record.agentSessionId = input.agentSessionId) ∧
      (input.latestTaskId.getD "" = "" ∨ record.latestTaskId = input.latestTaskId) ∧
      record.updatedAt = input.now := by
  have hbinding : (record.runtimeBinding <|> input.runtimeBinding) = record.runtimeBinding ↔
      (record.runtimeBinding = none → input.runtimeBinding = none) := by
    cases record.runtimeBinding <;> simp
  rw [← hbinding, ← insteadOf_eq_self, ← insteadOf_eq_self]
  cases record
  simp [EnsureInput.renew, eq_comm]

theorem change_ensure {s memory : ResumeMemory} {input : EnsureInput}
    (h : s.change (.ensure input) = some memory) :
    (s.get input.resumeId = none ∧ memory.records = s.records ++ [input.record]) ∨
    ∃ existing, s.get input.resumeId = some existing ∧
      memory.records = (s.modify (·.resumeId = input.resumeId) input.renew).records ∧
      ((existing.runtimeBinding = none → input.runtimeBinding = none) →
        memory = s.modify (·.resumeId = input.resumeId) input.renew) := by
  have hensured : ∀ binding t, s.ensureBinding input.resumeId binding = some t →
      t.records = s.records := by
    intro binding t ht
    unfold ResumeMemory.ensureBinding at ht
    split at ht
    · split_ifs at ht
      cases ht
      rfl
    · cases ht
      rfl
  simp only [ResumeMemory.change] at h
  split at h
  · rename_i existing hexisting
    split_ifs at h with hadmits
    obtain ⟨t, ht, rfl⟩ := Option.map_eq_some_iff.mp h
    refine .inr ⟨existing, hexisting, ?_⟩
    split at ht
    · rename_i binding hbinding hnone
      refine ⟨?_, fun hidle ↦ ?_⟩
      · simp [ResumeMemory.modify, hensured binding t ht]
      · rw [hidle hnone] at hbinding
        cases hbinding
    · cases ht
      exact ⟨rfl, fun _ ↦ rfl⟩
  · rename_i hnone
    obtain ⟨t, ht, rfl⟩ := Option.map_eq_some_iff.mp h
    refine .inl ⟨hnone, ?_⟩
    split at ht
    · exact congrArg (· ++ [input.record]) (hensured _ t ht)
    · cases ht
      rfl

theorem ResumeMemory.mem_of_get {s : ResumeMemory} {resumeId : String}
    {record : ResumeIdentityRecord} (h : s.get resumeId = some record) :
    record ∈ s.records ∧ record.resumeId = resumeId :=
  ⟨List.mem_of_find?_eq_some h, by simpa using List.find?_some h⟩

theorem resume_noTrace {s : ResumeMemory × List ResumeIdentityRecord} {c : ResumeCall}
    (h : (resumeRegistry.change s.1 c).isSome) :
    resumeRegistry.NoTrace s c ↔ c.Idle s.1 := by
  obtain ⟨memory, hmemory⟩ := Option.isSome_iff_exists.mp h
  rw [Persisted.noTrace_iff_of_change hmemory fun _ ↦ rfl]
  cases c with
  | ensure input =>
    rcases change_ensure hmemory with ⟨hnone, hrecords⟩ | ⟨existing, hget, hrecords, hmodified⟩
    · constructor
      · rintro rfl
        simp at hrecords
      · rintro ⟨⟨record, hrecord⟩, -⟩
        exact absurd (hnone.symm.trans hrecord) (by simp)
    · obtain ⟨hmem, hid⟩ := ResumeMemory.mem_of_get hget
      have hall : s.1.modify (·.resumeId = input.resumeId) input.renew = s.1 ↔
          ∀ record ∈ s.1.records, record.resumeId = input.resumeId →
            (record.runtimeBinding = none → input.runtimeBinding = none) ∧
            (input.agentSessionId.getD "" = "" ∨ record.agentSessionId = input.agentSessionId) ∧
            (input.latestTaskId.getD "" = "" ∨ record.latestTaskId = input.latestTaskId) ∧
            record.updatedAt = input.now := by
        simp only [modify_eq_self, renew_eq_self, decide_eq_true_eq]
      constructor
      · rintro rfl
        exact ⟨⟨existing, hget⟩, hall.mp (congrArg (ResumeMemory.mk · _) hrecords).symm⟩
      rintro ⟨-, hidle⟩
      rw [hmodified (hidle existing hmem hid).1]
      exact hall.mpr hidle
  | setPresence resumeId wsId presence now =>
    simp only [resumeRegistry, ResumeMemory.change] at hmemory
    split at hmemory
    · split_ifs at hmemory
      cases hmemory
      refine modify_eq_self.trans ?_
      refine forall₂_congr fun record _ ↦ ?_
      rw [decide_eq_true_eq]
      refine imp_congr_right fun _ ↦ ?_
      cases record
      simp [withPresence, eq_comm]
    · cases hmemory
  | bindAgentSessionId resumeId agentSessionId now =>
    simp only [resumeRegistry, ResumeMemory.change] at hmemory
    split at hmemory
    · rename_i record hget
      split_ifs at hmemory with hsame
      cases hmemory
      obtain ⟨hmem, hid⟩ := ResumeMemory.mem_of_get hget
      refine iff_of_false (fun heq ↦ ?_) id
      have hbound := modify_eq_self.mp heq record hmem (decide_eq_true hid)
      exact hsame (congrArg ResumeIdentityRecord.agentSessionId hbound).symm
    · cases hmemory
  | retireWorkspace wsId reason successors now =>
    simp only [resumeRegistry, ResumeMemory.change] at hmemory
    split_ifs at hmemory
    cases hmemory
    refine modify_eq_self.trans ?_
    refine forall₂_congr fun record _ ↦ ?_
    rw [decide_eq_true_eq]
    refine imp_congr_right fun _ ↦ ?_
    rw [← insteadOf_eq_self]
    cases record
    simp [retire, eq_comm]
  | recallWorkspace wsId now =>
    simp only [resumeRegistry, ResumeMemory.change] at hmemory
    split_ifs at hmemory with hany
    cases hmemory
    obtain ⟨record, hmem, hretired⟩ := List.any_eq_true.mp hany
    refine iff_of_false (fun heq ↦ ?_) id
    have hrecalled := modify_eq_self.mp heq record hmem hretired
    have hactive : record.retired = false := (congrArg ResumeIdentityRecord.retired hrecalled).symm
    rw [hactive, Bool.and_false] at hretired
    cases hretired

theorem session_noTrace {s : List SessionRecord × List SessionRecord} {c : SessionCall}
    (h : (sessionRegistry.change s.1 c).isSome) :
    sessionRegistry.NoTrace s c ↔ c.Idle s.1 := by
  obtain ⟨records, hrecords⟩ := Option.isSome_iff_exists.mp h
  rw [Persisted.noTrace_iff_of_change hrecords fun _ ↦ rfl]
  cases c with
  | ensureLoaded => cases hrecords
  | create record =>
    simp only [sessionRegistry, rosterChange, Option.ite_none_left_eq_some] at hrecords
    refine iff_of_false (fun heq ↦ ?_) id
    have hlength := congrArg List.length (Option.some.inj (heq ▸ hrecords.2))
    simp [SessionCall.effect] at hlength
  | update id patch =>
    simp only [sessionRegistry, rosterChange, Option.ite_none_right_eq_some] at hrecords
    obtain ⟨-, hrecords⟩ := hrecords
    cases hrecords
    simpa [SessionCall.effect, SessionCall.Idle] using
      map_ite_eq_self (l := s.1) (p := fun r ↦ decide (r.id = id)) (f := patch.assign)
  | remove id =>
    simp only [sessionRegistry, rosterChange, Option.ite_none_right_eq_some] at hrecords
    obtain ⟨hany, hrecords⟩ := hrecords
    cases hrecords
    obtain ⟨record, hmem, hid⟩ := List.any_eq_true.mp hany
    refine iff_of_false (fun heq ↦ ?_) not_false
    have hkept := List.filter_eq_self.mp heq record hmem
    simp_all
  | removeAllFor =>
    simp only [sessionRegistry, rosterChange, Option.ite_none_left_eq_some] at hrecords
    obtain ⟨hne, hrecords⟩ := hrecords
    cases hrecords
    exact iff_of_false (fun heq ↦ hne heq.symm) id

/-- **A refused change leaves no trace** exactly if it is an `add`, or says what is so already. -/
theorem no_trace_iff (w : WorkspaceMemory × List WorkspaceEntry) (wc : WorkspaceCall)
    (r : ResumeMemory × List ResumeIdentityRecord) (rc : ResumeCall)
    (s : List SessionRecord × List SessionRecord) (sc : SessionCall) :
    ((workspaceRegistry.change w.1 wc).isSome → (workspaceRegistry.NoTrace w wc ↔ wc.Idle)) ∧
      ((resumeRegistry.change r.1 rc).isSome → (resumeRegistry.NoTrace r rc ↔ rc.Idle r.1)) ∧
      ((sessionRegistry.change s.1 sc).isSome →
        (sessionRegistry.NoTrace s sc ↔ sc.Idle s.1)) :=
  ⟨workspace_noTrace, resume_noTrace, session_noTrace⟩

def sampleWorkspaceEntry : WorkspaceEntry := ⟨"w-1", "chat", "/w-1", "2026-08-23", none, none⟩

def sampleIdentity : ResumeIdentityRecord where
  resumeId := "r-1"
  wsId := "w-1"
  agent := "codex"
  createdAt := 1
  updatedAt := 1

def sampleSession : SessionRecord where
  id := "s-1"
  resumeId := "r-1"
  wsId := "w-1"
  agent := "codex"
  name := "x1"
  createdAt := "2026-08-23"
  lastActiveAt := "2026-08-23"
  state := .running

/-- An `add`, a presence that is set again in the same millisecond, and a session that is paused:
only the last one leaves a trace. -/
theorem no_trace_samples : workspaceRegistry.NoTrace ({}, []) (.add sampleWorkspaceEntry) ∧
    resumeRegistry.NoTrace ({ records := [sampleIdentity] }, [sampleIdentity])
      (.setPresence "r-1" "w-1" .active 1) ∧
    ¬ sessionRegistry.NoTrace ([sampleSession], [sampleSession])
      (.update "s-1" { state := some .paused }) := by
  obtain ⟨hadd, hpresence, hpause⟩ := no_trace_iff ({}, []) (.add sampleWorkspaceEntry)
    ({ records := [sampleIdentity] }, [sampleIdentity]) (.setPresence "r-1" "w-1" .active 1)
    ([sampleSession], [sampleSession]) (.update "s-1" { state := some .paused })
  refine ⟨(hadd (by decide)).mpr trivial, (hpresence rfl).mpr ?_, ?_⟩
  · simp [ResumeCall.Idle, sampleIdentity]
  · rw [hpause (by decide)]
    simp [SessionCall.Idle, sampleSession, SessionPatch.assign]

/-- **A refused `remove` is visible**: the workspace is gone although the call has rejected. -/
theorem removed_though_refused :
    ¬ ((∀ s c, workspaceRegistry.NoTrace s c) ∧ (∀ s c, resumeRegistry.NoTrace s c) ∧
      ∀ s c, sessionRegistry.NoTrace s c) := by
  rintro ⟨hall, -, -⟩
  have htrace := (hall (⟨[sampleWorkspaceEntry], ["chat"]⟩, [sampleWorkspaceEntry])
    (.remove "w-1")).reads _ rfl
  exact absurd htrace (by decide)

end OpenAlice.Workspaces
