import OpenAlice.Data.Json

/-!
# The file of a workspace's sessions

`SessionRecord`, `validateFile` and the text that `flush` gives to `JSON.stringify`, of
`src/workspaces/session-registry.ts`.  The file is refused as a whole when one of its
records is malformed, or when two of them have one id or one resume id.

An optional property that is `undefined` is one that is not there: `JSON.stringify` leaves
it out, and `validateFile` sets none that it does not find.
-/

namespace OpenAlice.Workspaces

open OpenAlice.Data

/-! ## Records -/

/-- `state` -/
inductive SessionState where
  | running
  | paused
deriving DecidableEq

inductive Surface where
  | terminal
  | webpi
  | headless
deriving DecidableEq

structure SessionRecord where
  id : String
  resumeId : String
  wsId : String
  agent : String
  name : String
  createdAt : String
  lastActiveAt : String
  state : SessionState
  surface : Option Surface := none
  /-- The value of `resumeHint`, whose kind is always `agent-session-id`. -/
  resumeHint : Option String := none
  scrollbackFile : Option String := none
  title : Option String := none
  fallbackTitle : Option String := none
  sourceRunId : Option String := none
deriving DecidableEq

structure Unique (records : List SessionRecord) : Prop where
  ids : (records.map SessionRecord.id).Nodup
  resumeIds : (records.map SessionRecord.resumeId).Nodup

/-! ## To JSON -/

def SessionState.text : SessionState → String
  | .running => "running"
  | .paused => "paused"

def Surface.text : Surface → String
  | .terminal => "terminal"
  | .webpi => "webpi"
  | .headless => "headless"

/-- `resumeHint` with its kind. -/
def hintJson (value : String) : Json :=
  .object [("kind", .string "agent-session-id"), ("value", .string value)]

/-- A record, as `JSON.stringify` sees it. -/
def SessionRecord.json (r : SessionRecord) : Json :=
  .object ([("id", .string r.id), ("resumeId", .string r.resumeId), ("wsId", .string r.wsId),
    ("agent", .string r.agent), ("name", .string r.name), ("createdAt", .string r.createdAt),
    ("lastActiveAt", .string r.lastActiveAt), ("state", .string r.state.text)] ++
    given "surface" (r.surface.map fun surface ↦ .string surface.text) ++
    given "title" (r.title.map .string) ++
    given "fallbackTitle" (r.fallbackTitle.map .string) ++
    given "sourceRunId" (r.sourceRunId.map .string) ++
    given "resumeHint" (r.resumeHint.map hintJson) ++
    given "scrollbackFile" (r.scrollbackFile.map .string))

def fileShape (records : List SessionRecord) : Json :=
  .object [("version", .number "4"), ("records", .array (records.map SessionRecord.json))]

/-! ## From JSON -/

/-- `SessionState` from its text. -/
def stateOf : String → Option SessionState
  | "running" => some .running
  | "paused" => some .paused
  | _ => none

/-- `surface` from its text, and nothing from another text. -/
def surfaceOf : String → Option Surface
  | "terminal" => some .terminal
  | "webpi" => some .webpi
  | "headless" => some .headless
  | _ => none

/-- `resumeHint`, when it has the kind and a value. -/
def hintOf (hint : Json) : Option String := do
  let fields ← properties hint
  let kind ← textOf fields "kind"
  if kind = "agent-session-id" then textOf fields "value" else none

def versionOf : Option Json → Option Nat
  | some (.number "1") => some 1
  | some (.number "2") => some 2
  | some (.number "3") => some 3
  | some (.number "4") => some 4
  | _ => none

/-- `title` is the launch prompt up to the second version. -/
def titled (version : Nat) : Bool := decide (version = 3) || decide (version = 4)

/-- A record, unless it has the wrong shape. -/
def recordOf (version : Nat) (r : List (String × Json)) : Option SessionRecord := do
  let id ← textOf r "id"
  let wsId ← textOf r "wsId"
  let agent ← textOf r "agent"
  let name ← textOf r "name"
  let createdAt ← textOf r "createdAt"
  let lastActiveAt ← textOf r "lastActiveAt"
  let state ← (textOf r "state").bind stateOf
  return {
    id
    resumeId := (textOf r "resumeId").getD id
    wsId
    agent
    name
    createdAt
    lastActiveAt
    state
    surface := (textOf r "surface").bind surfaceOf
    title := if titled version then textOf r "title" else none
    fallbackTitle := (textOf r "fallbackTitle").or (if titled version then none else textOf r "title")
    sourceRunId := textOf r "sourceRunId"
    resumeHint := (Json.get r "resumeHint").bind hintOf
    scrollbackFile := textOf r "scrollbackFile" }

mutual

/-- `String(value)` -/
def shown : Json → String
  | .null => "null"
  | .bool value => if value then "true" else "false"
  | .number text => text
  | .string value => value
  | .array items => ",".intercalate (shownItems items)
  | .object _ => "[object Object]"

/-- The texts of the elements of an array, with nothing for `null`. -/
def shownItems : List Json → List String
  | [] => []
  | .null :: rest => "" :: shownItems rest
  | item :: rest => shown item :: shownItems rest

end

/-- `String(value)` of what may be `undefined`. -/
def shownOption : Option Json → String
  | none => "undefined"
  | some value => shown value

/-- The loop of `validateFile`, from record `i` on. -/
def validateRecords (version i : Nat) (ids resumeIds : List String) :
    List Json → Except String (List SessionRecord)
  | [] => .ok []
  | e :: rest => do
      let some r := properties e | throw s!"sessions.json: record {i} not an object"
      let some base := recordOf version r | throw s!"sessions.json: record {i} has wrong shape"
      if ids.any (· = base.id) then
        throw s!"sessions.json: duplicate record id {base.id}"
      if resumeIds.any (· = base.resumeId) then
        throw s!"sessions.json: duplicate resume identity {base.resumeId}"
      let records ← validateRecords version (i + 1) (base.id :: ids) (base.resumeId :: resumeIds) rest
      return base :: records

def validateFile (value : Json) : Except String (List SessionRecord) := do
  let some v := properties value | throw "sessions.json: root must be an object"
  let some version := versionOf (Json.get v "version")
    | throw ("sessions.json: unsupported version " ++ shownOption (Json.get v "version"))
  let some (.array records) := Json.get v "records"
    | throw "sessions.json: records must be an array"
  validateRecords version 0 [] [] records

/-! ## There and back -/

theorem stateOf_text (state : SessionState) : stateOf state.text = some state := by
  cases state <;> rfl

theorem surfaceOf_text (surface : Surface) : surfaceOf surface.text = some surface := by
  cases surface <;> rfl

def SessionRecord.optional (r : SessionRecord) : List (String × Json) :=
  given "surface" (r.surface.map fun surface ↦ .string surface.text) ++
    given "title" (r.title.map .string) ++
    given "fallbackTitle" (r.fallbackTitle.map .string) ++
    given "sourceRunId" (r.sourceRunId.map .string) ++
    given "resumeHint" (r.resumeHint.map hintJson) ++
    given "scrollbackFile" (r.scrollbackFile.map .string)

theorem get_json (r : SessionRecord) {key : String}
    (h : key ∉ ["id", "resumeId", "wsId", "agent", "name", "createdAt", "lastActiveAt", "state"]) :
    Json.get r.json.recordValue key = Json.get r.optional key := by
  simp only [List.mem_cons, List.not_mem_nil, or_false, not_or] at h
  obtain ⟨h₁, h₂, h₃, h₄, h₅, h₆, h₇, h₈⟩ := h
  simp only [SessionRecord.json, Json.recordValue, SessionRecord.optional, Json.get,
    List.cons_append, List.nil_append, List.append_assoc, List.lookup_cons,
    beq_eq_false_iff_ne.mpr h₁, beq_eq_false_iff_ne.mpr h₂, beq_eq_false_iff_ne.mpr h₃,
    beq_eq_false_iff_ne.mpr h₄, beq_eq_false_iff_ne.mpr h₅, beq_eq_false_iff_ne.mpr h₆,
    beq_eq_false_iff_ne.mpr h₇, beq_eq_false_iff_ne.mpr h₈]

structure Written (r : SessionRecord) (fields : List (String × Json)) : Prop where
  id : textOf fields "id" = some r.id
  resumeId : textOf fields "resumeId" = some r.resumeId
  wsId : textOf fields "wsId" = some r.wsId
  agent : textOf fields "agent" = some r.agent
  name : textOf fields "name" = some r.name
  createdAt : textOf fields "createdAt" = some r.createdAt
  lastActiveAt : textOf fields "lastActiveAt" = some r.lastActiveAt
  state : textOf fields "state" = some r.state.text
  surface : textOf fields "surface" = r.surface.map Surface.text
  title : textOf fields "title" = r.title
  fallbackTitle : textOf fields "fallbackTitle" = r.fallbackTitle
  sourceRunId : textOf fields "sourceRunId" = r.sourceRunId
  resumeHint : Json.get fields "resumeHint" = r.resumeHint.map hintJson
  scrollbackFile : textOf fields "scrollbackFile" = r.scrollbackFile

theorem written_json (r : SessionRecord) : Written r r.json.recordValue where
  id := rfl
  resumeId := rfl
  wsId := rfl
  agent := rfl
  name := rfl
  createdAt := rfl
  lastActiveAt := rfl
  state := rfl
  surface := by
    rw [textOf, get_json r (by decide)]
    simp [SessionRecord.optional, get_append, get_given, get_given_of_ne]
    cases r.surface <;> rfl
  title := by
    rw [textOf, get_json r (by decide)]
    simp [SessionRecord.optional, get_append, get_given, get_given_of_ne, asString_map]
  fallbackTitle := by
    rw [textOf, get_json r (by decide)]
    simp [SessionRecord.optional, get_append, get_given, get_given_of_ne, asString_map]
  sourceRunId := by
    rw [textOf, get_json r (by decide)]
    simp [SessionRecord.optional, get_append, get_given, get_given_of_ne, asString_map]
  resumeHint := by
    rw [get_json r (by decide)]
    simp [SessionRecord.optional, get_append, get_given, get_given_of_ne]
  scrollbackFile := by
    rw [textOf, get_json r (by decide)]
    simp [SessionRecord.optional, get_append, get_given, get_given_of_ne, asString_map]

theorem recordOf_json (r : SessionRecord) : recordOf 4 r.json.recordValue = some r := by
  have h := written_json r
  have hsurface : (r.surface.map Surface.text).bind surfaceOf = r.surface := by
    cases r.surface with
    | none => rfl
    | some surface => exact surfaceOf_text surface
  have hhint : (r.resumeHint.map hintJson).bind hintOf = r.resumeHint := by
    cases r.resumeHint <;> rfl
  simp only [recordOf, h.id, h.resumeId, h.wsId, h.agent, h.name, h.createdAt, h.lastActiveAt,
    h.state, h.surface, h.title, h.fallbackTitle, h.sourceRunId, h.resumeHint, h.scrollbackFile,
    hsurface, hhint]
  simp [stateOf_text, titled]

theorem any_eq_false {texts : List String} {text : String} :
    texts.any (· = text) = false ↔ text ∉ texts := by
  simp only [List.any_eq_false, decide_eq_true_eq]
  exact ⟨fun h hmem ↦ h text hmem rfl, by rintro h x hx rfl; exact h hx⟩

variable {records : List SessionRecord} {ids resumeIds : List String}

/-- The records of a list are read as they were written when they are distinct, and distinct
from those before. -/
theorem validateRecords_json {i : Nat} (h : Unique records) (hids : ∀ r ∈ records, r.id ∉ ids)
    (hresume : ∀ r ∈ records, r.resumeId ∉ resumeIds) :
    validateRecords 4 i ids resumeIds (records.map SessionRecord.json) = .ok records := by
  induction records generalizing i ids resumeIds with
  | nil => rfl
  | cons r rest ih =>
    obtain ⟨hid, hresumeId⟩ := h
    rw [List.map_cons, List.nodup_cons] at hid hresumeId
    have hrest : validateRecords 4 (i + 1) (r.id :: ids) (r.resumeId :: resumeIds)
        (rest.map SessionRecord.json) = .ok rest := by
      refine ih ⟨hid.2, hresumeId.2⟩ ?_ ?_
      · intro r' hr' hmem
        rcases List.mem_cons.mp hmem with heq | hmem
        · exact hid.1 (heq ▸ List.mem_map_of_mem hr')
        · exact hids r' (List.mem_cons_of_mem _ hr') hmem
      intro r' hr' hmem
      rcases List.mem_cons.mp hmem with heq | hmem
      · exact hresumeId.1 (heq ▸ List.mem_map_of_mem hr')
      · exact hresume r' (List.mem_cons_of_mem _ hr') hmem
    have hnew := any_eq_false.mpr (hids r List.mem_cons_self)
    have hnew' := any_eq_false.mpr (hresume r List.mem_cons_self)
    have hproperties : properties r.json = some r.json.recordValue := rfl
    rw [List.map_cons, validateRecords, hproperties]
    simp only [recordOf_json, hnew, hnew', hrest]
    rfl

/-- **The file that is written is read back** when its records are distinct. -/
theorem validateFile_fileShape (h : Unique records) :
    validateFile (fileShape records) = .ok records :=
  validateRecords_json h (by simp) (by simp)

theorem validateRecords_cons {version i : Nat} {e : Json} {rest : List Json}
    (h : validateRecords version i ids resumeIds (e :: rest) = .ok records) :
    ∃ base records', records = base :: records' ∧ base.id ∉ ids ∧ base.resumeId ∉ resumeIds ∧
      validateRecords version (i + 1) (base.id :: ids) (base.resumeId :: resumeIds) rest =
        .ok records' := by
  rw [validateRecords] at h
  cases hr : properties e with
  | none => rw [hr] at h; cases h
  | some r =>
    cases hbase : recordOf version r with
    | none => simp only [hr, hbase] at h; cases h
    | some base =>
      cases hid : ids.any (· = base.id) with
      | true => simp only [hr, hbase, hid] at h; cases h
      | false =>
        cases hresume : resumeIds.any (· = base.resumeId) with
        | true => simp only [hr, hbase, hid, hresume] at h; cases h
        | false =>
          simp only [hr, hbase, hid, hresume] at h
          cases hrest : validateRecords version (i + 1) (base.id :: ids)
              (base.resumeId :: resumeIds) rest with
          | error e => rw [hrest] at h; cases h
          | ok records' =>
            rw [hrest] at h
            cases h
            exact ⟨base, records', rfl, any_eq_false.mp hid, any_eq_false.mp hresume, hrest⟩

theorem validateRecords_unique {version i : Nat} {items : List Json}
    (h : validateRecords version i ids resumeIds items = .ok records) :
    Unique records ∧ ∀ r ∈ records, r.id ∉ ids ∧ r.resumeId ∉ resumeIds := by
  induction items generalizing i ids resumeIds records with
  | nil =>
    cases h
    exact ⟨⟨List.nodup_nil, List.nodup_nil⟩, by simp⟩
  | cons e rest ih =>
    obtain ⟨base, records', rfl, hid, hresume, hrest⟩ := validateRecords_cons h
    obtain ⟨hunique, hnew⟩ := ih hrest
    refine ⟨⟨?_, ?_⟩, ?_⟩
    · rw [List.map_cons, List.nodup_cons]
      refine ⟨?_, hunique.ids⟩
      intro hmem
      obtain ⟨r, hr, heq⟩ := List.mem_map.mp hmem
      exact (hnew r hr).1 (heq ▸ List.mem_cons_self)
    · rw [List.map_cons, List.nodup_cons]
      refine ⟨?_, hunique.resumeIds⟩
      intro hmem
      obtain ⟨r, hr, heq⟩ := List.mem_map.mp hmem
      exact (hnew r hr).2 (heq ▸ List.mem_cons_self)
    · intro r hr
      rcases List.mem_cons.mp hr with rfl | hr
      · exact ⟨hid, hresume⟩
      · exact ⟨fun hmem ↦ (hnew r hr).1 (List.mem_cons_of_mem _ hmem),
          fun hmem ↦ (hnew r hr).2 (List.mem_cons_of_mem _ hmem)⟩

theorem validateFile_unique {value : Json}
    (h : validateFile value = .ok records) : Unique records := by
  unfold validateFile at h
  cases hv : properties value with
  | none => rw [hv] at h; cases h
  | some v =>
    cases hversion : versionOf (Json.get v "version") with
    | none => simp only [hv, hversion] at h; cases h
    | some version =>
      simp only [hv, hversion] at h
      split at h
      · exact (validateRecords_unique h).1
      · cases h

end OpenAlice.Workspaces
