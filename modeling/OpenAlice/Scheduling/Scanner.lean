import OpenAlice.Run.Basic

/-!
# The schedule scanner

`ScheduleScanner` of `src/workspaces/schedule/scanner.ts`, with the marker store, the
schedule expressions and the desks it reads.  A scan is one step: it reads the desks of
all workspaces, then the Issues of each, fires what is due, and prunes the markers it
has not come across.  The workspaces of a scan are read side by side there and one
after the other here; their markers have different keys.

`cron-parser`, the parsing of dates and `localeCompare` are parameters.  `dispatched` is
read by no step.
-/

namespace OpenAlice.Scheduling

/-! ## Schedule expressions -/

inductive Schedule where
  | at (at₀ : String)
  | every (every : String)
  | cron (cron : String) (timezone : Option String) (catchUp : Option Bool)

/-- What is fixed when the scanner is built. -/
structure ScanConfig where
  /-- `new Date(s).getTime()`; `none` stands for `NaN`. -/
  parseDate : String → Option Int
  nextCronFire : String → Int → Option String → Option Int
  localeCompare : String → String → Ordering
  intervalMs : Int
  /-- The runtime has `claimFreshSession`. -/
  claimFreshSession : Bool

/-- The white space of JavaScript. -/
def isSpace (c : Char) : Bool :=
  [0x9, 0xA, 0xB, 0xC, 0xD, 0x20, 0xA0, 0x1680, 0x2028, 0x2029, 0x202F, 0x205F, 0x3000, 0xFEFF].contains
    c.toNat || (0x2000 ≤ c.toNat && c.toNat ≤ 0x200A)

def trim (cs : List Char) : List Char :=
  ((cs.dropWhile isSpace).reverse.dropWhile isSpace).reverse

def durationPart (unit : Char) (cs : List Char) : Nat × List Char :=
  let digits := cs.takeWhile Char.isDigit
  match cs.dropWhile Char.isDigit with
  | u :: rest => if u = unit ∧ digits ≠ [] then (Nat.ofDigitChars 10 digits 0, rest) else (0, cs)
  | [] => (0, cs)

/-- Hours, minutes and seconds in that order, not all of them zero. -/
def parseDuration (s : String) : Option Nat :=
  let (h, cs) := durationPart 'h' (trim s.toList)
  let (m, cs) := durationPart 'm' cs
  let (sec, cs) := durationPart 's' cs
  if cs ≠ [] then none
  else if h = 0 ∧ m = 0 ∧ sec = 0 then none
  else some ((h * 3600 + m * 60 + sec) * 1000)

def scheduleCatchesUp : Schedule → Bool
  | .cron _ _ catchUp => catchUp != some false
  | _ => true

variable (cfg : ScanConfig)

def computeNextRun (schedule : Schedule) (afterMs : Int) : Option Int :=
  match schedule with
  | .at at₀ => (cfg.parseDate at₀).bind fun t ↦ if afterMs < t then some t else none
  | .every every => (parseDuration every).map fun (ms : Nat) ↦ afterMs + (ms : Int)
  | .cron cron timezone _ => cfg.nextCronFire cron afterMs timezone

def fireBase (schedule : Schedule) (lastFiredAtMs : Option Int) (nowMs lookbackMs : Int)
    (heldAtMs : Option Int) : Int :=
  match schedule with
  | .cron .. =>
    match heldAtMs, lastFiredAtMs with
    | some held, none => held
    | some held, some last => if last ≤ held then held else last
    | none, some last => last
    | none, none => nowMs - lookbackMs
  | _ => lastFiredAtMs.getD 0

/-! ## Markers -/

structure WsId where
  name : String
  slug : ' ' ∉ name.toList

structure MarkerRecord where
  fired : Option Int := none
  held : Option Int := none

abbrev Records := List (String × MarkerRecord)

def key (wsId : WsId) (taskId : String) : String := wsId.name ++ " " ++ taskId

namespace Records

def get (records : Records) (key : String) : Option Int := (records.lookup key).bind MarkerRecord.fired

def getHeld (records : Records) (key : String) : Option Int :=
  (records.lookup key).bind MarkerRecord.held

/-- `Map.set`. -/
def put (records : Records) (key : String) (record : MarkerRecord) : Records :=
  (key, record) :: records.filter fun r ↦ r.1 ≠ key

def set (records : Records) (key : String) (ts : Int) : Records :=
  records.put key { fired := some ts }

def hold (records : Records) (key : String) (ts : Int) : Records :=
  records.put key { (records.lookup key).getD {} with held := some ts }

def prune (records : Records) (seen : List String) : Records :=
  records.filter fun r ↦ seen.contains r.1

end Records

/-! ## Issues -/

inductive IssueStatus where
  | backlog | todo | in_progress | done | canceled
deriving DecidableEq

structure IssueRecord where
  id : String
  status : IssueStatus
  when? : Option Schedule
  assignee : String
  connectorDesk : Option String := none

/-- `ReadIssuesResult`; of the invalid files, their ids. -/
inductive ReadIssuesResult where
  | ok (issues : List IssueRecord) (invalid : List String)
  | absent
  | invalid (error : String)

def isTerminalStatus (status : IssueStatus) : Bool := status = .done || status = .canceled

def isFireable (issue : IssueRecord) : Bool := issue.when?.isSome && !isTerminalStatus issue.status

def issueAssigneeClaimsFirstSession (assignee : String) : Bool := assignee = "@new-then-resume"

def isConnectorDeskIssue (issue : IssueRecord) : Bool := issue.connectorDesk.any (· ≠ "")

/-- What becomes of a dispatch: it rejects before a worker runs, or one runs. -/
inductive Admission where
  | refused | started
deriving DecidableEq

/-- A workspace in a scan: what the two reads of its Issues come to (`none` when they
throw), whether `observeIssues` throws, and what becomes of a dispatch. -/
structure WorkspaceScan where
  id : WsId
  deskRead : Option ReadIssuesResult
  read : Option ReadIssuesResult
  observeThrows : Bool := false
  admission : IssueRecord → Admission

structure ConnectorDesk where
  wsId : String
  connectorId : String
  issueId : String

def desksOf (ws : WorkspaceScan) : Option (List ConnectorDesk) :=
  ws.deskRead.map fun
    | .ok issues _ =>
      (issues.filter isConnectorDeskIssue).map fun issue ↦
        ⟨ws.id.name, issue.connectorDesk.getD "", issue.id⟩
    | _ => []

def deskLe (left right : ConnectorDesk) : Bool :=
  ((cfg.localeCompare left.connectorId right.connectorId).then
    ((cfg.localeCompare left.wsId right.wsId).then
      (cfg.localeCompare left.issueId right.issueId))) != .gt

def findConnectorDesks (workspaces : List WorkspaceScan) : Option (List ConnectorDesk) :=
  (workspaces.mapM desksOf).map fun found ↦ found.flatten.mergeSort (deskLe cfg)

/-- `${wsId}:${issueId}`. -/
def deskKey (wsId issueId : String) : String := wsId ++ ":" ++ issueId

/-- `extraConnectorDeskKeys`, with the connectors seen so far. -/
def extraConnectorDeskKeys (seen : List String) : List ConnectorDesk → List String
  | [] => []
  | desk :: desks =>
    if seen.contains desk.connectorId then
      deskKey desk.wsId desk.issueId :: extraConnectorDeskKeys seen desks
    else extraConnectorDeskKeys (desk.connectorId :: seen) desks

/-! ## Scanning -/

structure Dispatched where
  key : String
  now : Int

/-- What a scan has done so far. -/
structure Progress where
  records : Records
  seen : List String := []
  threw : Bool := false
  dispatched : List Dispatched

def isDue (records : Records) (key : String) (schedule : Schedule) (nowMs : Int) : Bool :=
  (computeNextRun cfg schedule
    (fireBase schedule (records.get key) nowMs cfg.intervalMs (records.getHeld key))).any (· ≤ nowMs)

def noteCronMiss (records : Records) (key : String) (schedule : Schedule) (nowMs : Int) : Records :=
  match schedule with
  | .cron .. =>
    let last := records.get key
    match computeNextRun cfg schedule
        (fireBase schedule last nowMs cfg.intervalMs (records.getHeld key)) with
    | none => records
    | some dueAt =>
      if nowMs < dueAt then records
      else if !scheduleCatchesUp schedule then records.hold key nowMs
      else if last = none then records.hold key (dueAt - 1)
      else records
  | _ => records

/-- Whether `dispatchIssue` resolves: it still throws when the worker runs and the
Session it was to claim cannot be claimed in this runtime. -/
def dispatchIssue (issue : IssueRecord) : Admission → Bool
  | .refused => false
  | .started => !issueAssigneeClaimsFirstSession issue.assignee || cfg.claimFreshSession

def fire (nowMs : Int) (key : String) (issue : IssueRecord) (schedule : Schedule)
    (admission : Admission) (P : Progress) : Progress :=
  let dispatched := if admission = .started then P.dispatched ++ [⟨key, nowMs⟩] else P.dispatched
  if dispatchIssue cfg issue admission then
    { P with dispatched, records := P.records.set key nowMs }
  else { P with dispatched, records := noteCronMiss cfg P.records key schedule nowMs }

/-- The loop body of `scanWorkspace`. -/
def scanIssue (nowMs : Int) (extraDesks : List String) (ws : WorkspaceScan) (P : Progress)
    (issue : IssueRecord) : Progress :=
  match issue.when? with
  | none => P
  | some schedule =>
    if isConnectorDeskIssue issue && extraDesks.contains (deskKey ws.id.name issue.id) then P
    else
      let key := key ws.id issue.id
      let P := { P with seen := P.seen ++ [key] }
      if isFireable issue && isDue cfg P.records key schedule nowMs then
        fire cfg nowMs key issue schedule (ws.admission issue) P
      else P

def scanWorkspace (nowMs : Int) (extraDesks : List String) (P : Progress) (ws : WorkspaceScan) : Progress :=
  match ws.read with
  | some (.ok issues _) =>
    if ws.observeThrows then { P with threw := true }
    else issues.foldl (scanIssue cfg nowMs extraDesks ws) P
  | _ => P

structure Scan where
  nowMs : Int
  workspaces : List WorkspaceScan

/-- The marker store, the time of the last scan and the dispatches so far. -/
structure ScanState where
  records : Records := []
  clock : Int := 0
  dispatched : List Dispatched := []

/-- It throws before it has read the Issues when the desks cannot be read, and
before it prunes when a workspace throws. -/
def scan (S : ScanState) (s : Scan) : ScanState :=
  match findConnectorDesks cfg s.workspaces with
  | none => { S with clock := s.nowMs }
  | some desks =>
    let extraDesks := extraConnectorDeskKeys [] desks
    let P : Progress := s.workspaces.foldl (scanWorkspace cfg s.nowMs extraDesks)
      { records := S.records, dispatched := S.dispatched }
    { clock := s.nowMs
      dispatched := P.dispatched
      records := if P.threw then P.records else P.records.prune P.seen }

def scanStep (S : ScanState) (s : Scan) : Option ScanState :=
  if s.nowMs < S.clock then none else some (scan cfg S s)

end OpenAlice.Scheduling
