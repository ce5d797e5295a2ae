import OpenAlice.Run.Await
import OpenAlice.Trading.Types

/-!
# Approvals from the phone

`processConnectorUtaRequests` of `src/services/connector-client/uta-review.ts`: the queued
requests of the connectors are drained and dealt with one after another.  Every call that is
awaited takes its time; the clock is read once, after the requests have been drained.

How an operation is summed up in a review (`compactUtaOperation`) is a parameter.
-/

namespace OpenAlice.Connector

open OpenAlice.Run OpenAlice.Trading

/-- `CONNECTOR_ACTION_TTL_MS` -/
def actionTtlMs : Int := 60000

/-- `MAX_CONNECTOR_UTA_ACCOUNTS` -/
def maxUtaAccounts : Nat := 8

/-- `MAX_CONNECTOR_UTA_OPERATIONS` -/
def maxUtaOperations : Nat := 8

/-- `ConnectorUtaAction` -/
inductive UtaAction where
  | review
  | push
  | reject
deriving DecidableEq

/-- `ConnectorUtaRequest` -/
structure UtaRequest where
  requestId : String
  connectorId : String
  /-- What `Date.parse` makes of `createdAt`, if it is a number. -/
  createdAt : Option Int
  action : UtaAction
  utaId : Option String := none
  pendingHash : Option String := none

def isConnectorActionExpired (createdAt : Option Int) (now : Int) : Bool :=
  match createdAt with
  | none => true
  | some created => actionTtlMs < now - created

/-- `ConnectorUtaFailureReason` -/
inductive FailureReason where
  | expired
  | unavailable
  | notFound
  | conflict
  | readonly
  | deliveryFailed

def utaFailureMessage : FailureReason → String
  | .expired => "That UTA review expired. Send /uta again."
  | .unavailable => "Trading is not available. Check OpenAlice trading mode and UTA."
  | .notFound => "That trading account is no longer available. Send /uta again."
  | .conflict => "That pending commit changed. Send /uta again and review it."
  | .readonly => "Trading mode is readonly. Reject is still available; push is not."
  | .deliveryFailed => "OpenAlice could not refresh the UTA panel. Send /uta again."

/-- `ConnectorUtaFailure` -/
structure UtaFailure where
  requestId : String
  connectorId : String
  reason : FailureReason
  message : String

/-- `ConnectorUtaOperation` -/
structure UtaOperation where
  action : String
  summary : String
  symbol : Option String := none
  side : Option String := none
  orderType : Option String := none
  quantity : Option String := none
  limitPrice : Option String := none
  auxPrice : Option String := none

/-- `ConnectorUtaAccountReview` -/
structure AccountReview where
  id : String
  label : String
  pendingMessage : Option String
  pendingHash : Option String
  stagedCount : Nat
  hiddenOperationCount : Nat
  operations : List UtaOperation

/-- `ConnectorUtaReview` -/
structure UtaReview where
  generatedAt : Int
  unavailable : Option String := none
  readonly : Bool := false
  accounts : List AccountReview
  hiddenAccountCount : Option Nat := none

/-- The kind of a `ConnectorUtaResult`. -/
inductive ResultKind where
  | pushed
  | rejected
  | error

/-- `ConnectorUtaResult` -/
structure UtaResult where
  kind : ResultKind
  utaId : Option String
  message : String

/-- `ConnectorUtaPresentation` -/
structure UtaPresentation where
  requestId : String
  connectorId : String
  review : UtaReview
  result : Option UtaResult

inductive TradingMode where
  | lite
  | readonly
  | pro
deriving DecidableEq

def describeTradingMode : TradingMode → String
  | .lite => "Lite mode keeps UTA disconnected. " ++
      "Switch to readonly or pro to use broker-backed trading surfaces."
  | .readonly => "Readonly mode connects UTA for account analysis but blocks " ++
      "venue-mutating broker writes."
  | .pro => "Pro mode enables UTA with per-account permissions."

/-- What is thrown: its message, and what `isHashConflict` says of it. -/
structure Thrown where
  message : String
  isHashConflict : Bool

/-- What a review reads of a `UTASummary`. -/
structure UtaSummary where
  id : String
  label : String
  /-- `health.tier === 'data'` -/
  isData : Bool

/-- What is read of an account: `uta.label`. -/
structure Uta where
  label : String

/-- What is read of `uta.status()`. -/
structure UtaStatus (Op : Type) where
  pendingMessage : Option String
  pendingHash : Option String
  staged : List Op

/-- What is read of a `PushResult`. -/
structure Pushed where
  hash : String
  submitted : Nat
  rejected : Nat

inductive Query where
  | isEnabled
  | drainUtaActions
  | listUTAs
  | get (utaId : String)
  | status (utaId : String)
  /-- `uta.push(request.pendingHash)` on the account of the request. -/
  | push (request : UtaRequest)
  /-- `uta.reject(undefined, request.pendingHash)` on the account of the request. -/
  | reject (request : UtaRequest)
  | presentUta (presentation : UtaPresentation)
  | failUta (failure : UtaFailure)

abbrev Answer (Op : Type) : Query → Type
  | .isEnabled => Bool
  | .drainUtaActions => List UtaRequest
  | .listUTAs => List UtaSummary
  | .get _ => Option Uta
  | .status _ => UtaStatus Op
  | .push _ => Pushed
  | .reject _ => String
  | .presentUta _ | .failUta _ => Unit

abbrev Reply (Op : Type) (q : Query) : Type := Except Thrown (Answer Op q)

variable {Op : Type}

variable (Op) in
abbrev Bridge (α : Type) := Await Query (Reply Op) TradingMode α

/-- `truncate`, where a text is counted in characters. -/
def truncate (value : String) (max : Nat) : String :=
  if value.length ≤ max then value
  else if max ≤ 1 then "…"
  else String.ofList (value.toList.take (max - 1)) ++ "…"

/-- `uta.label || id` -/
def labelOr (label id : String) : String := (truthy (some label)).getD id

/-! ## The review -/

variable (compactUtaOperation : Op → UtaOperation)

/-- `accountReview`, from the status. -/
def accountReview (summary : UtaSummary) (status : UtaStatus Op) : AccountReview where
  id := summary.id
  label := truncate (labelOr summary.label summary.id) 80
  pendingMessage := (truthy status.pendingMessage).map fun text ↦ truncate text 200
  pendingHash := (truthy status.pendingHash).map fun text ↦ truncate text 16
  stagedCount := status.staged.length
  hiddenOperationCount := status.staged.length - maxUtaOperations
  operations := (status.staged.take maxUtaOperations).map compactUtaOperation

def unreadable (summary : UtaSummary) (message : String) : AccountReview where
  id := summary.id
  label := truncate (labelOr summary.label summary.id) 80
  pendingMessage := none
  pendingHash := none
  stagedCount := 0
  hiddenOperationCount := 0
  operations := [{ action := "unavailable", summary := truncate message 120 }]

def reviewOf (summary : UtaSummary) : Bridge Op (Except Thrown (Option AccountReview)) :=
  .ask (.get summary.id) fun
    | .error e => .ret (.error e)
    | .ok none => .ret (.ok none)
    | .ok (some _) => .ask (.status summary.id) fun
        | .ok status => .ret (.ok (some (accountReview compactUtaOperation summary status)))
        | .error e => .ret (.ok (some (unreadable summary e.message)))

def reviewAll : List UtaSummary → Bridge Op (Except Thrown (List AccountReview))
  | [] => .ret (.ok [])
  | summary :: rest =>
    (reviewOf compactUtaOperation summary).bindOk fun first ↦
      (reviewAll rest).bindOk fun accounts ↦ .ret (.ok (first.toList ++ accounts))

def buildConnectorUtaReview (mode : TradingMode) : Bridge Op (Except Thrown UtaReview) :=
  if mode = .lite then
    .look fun now _ ↦ .ret (.ok
      { generatedAt := now, unavailable := some (describeTradingMode .lite), accounts := [] })
  else
    .ask .listUTAs fun
      | .error e => .look fun now _ ↦ .ret (.ok
          { generatedAt := now, unavailable := some e.message, accounts := [] })
      | .ok utas =>
        let summaries := utas.filter fun uta ↦ !uta.isData
        let visible := summaries.take maxUtaAccounts
        (reviewAll compactUtaOperation visible).bindOk fun accounts ↦
          .look fun now _ ↦ .ret (.ok
            { generatedAt := now, readonly := mode = .readonly, accounts,
              hiddenAccountCount :=
                if visible.length < summaries.length then
                  some (summaries.length - visible.length)
                else none })

/-! ## A request -/

/-- `fail` of `fulfillUtaRequest`; what `failUta` throws is only logged. -/
def fail (request : UtaRequest) (reason : FailureReason) (message : Option String) :
    Bridge Op Unit :=
  .ask (.failUta ⟨request.requestId, request.connectorId, reason,
    message.getD (utaFailureMessage reason)⟩) fun _ ↦ .ret ()

def present (request : UtaRequest) (review : UtaReview) (result : Option UtaResult) :
    Bridge Op Unit :=
  .ask (.presentUta ⟨request.requestId, request.connectorId, review, result⟩) fun
    | .ok _ => .ret ()
    | .error _ => fail request .deliveryFailed none

def presentFresh (request : UtaRequest) (mode : TradingMode) (result : Option UtaResult) :
    Bridge Op (Except Thrown Unit) :=
  (buildConnectorUtaReview compactUtaOperation mode).bindOk fun review ↦
    (present request review result).bind fun _ ↦ .ret (.ok ())

def failed (request : UtaRequest) (reason : FailureReason) (message : Option String) :
    Bridge Op (Except Thrown Unit) :=
  (fail request reason message).bind fun _ ↦ .ret (.ok ())

def formatPushResult (label : String) (result : Pushed) : String :=
  s!"Pushed {label} · {result.hash} · {result.submitted} submitted" ++
    if 0 < result.rejected then s!", {result.rejected} rejected" else ""

/-- The push or the reject of a request, once the account's status allows it. -/
def act (request : UtaRequest) (mode : TradingMode) (utaId label : String) :
    Bridge Op (Except Thrown Unit) :=
  if request.action = .push then
    if mode = .readonly then failed request .readonly none
    else
      .ask (.push request) fun
        | .error e => .ret (.error e)
        | .ok pushed => presentFresh compactUtaOperation request mode
            (some ⟨.pushed, some utaId, formatPushResult label pushed⟩)
  else
    .ask (.reject request) fun
      | .error e => .ret (.error e)
      | .ok hash => presentFresh compactUtaOperation request mode
          (some ⟨.rejected, some utaId, s!"Rejected {label} · {hash}"⟩)

/-- A request for a push or a reject, in the `try` of `fulfillUtaRequest`. -/
def approve (request : UtaRequest) (mode : TradingMode) : Bridge Op (Except Thrown Unit) :=
  if mode = .lite then failed request .unavailable (some (describeTradingMode .lite))
  else
    match truthy request.utaId, truthy request.pendingHash with
    | none, _ => failed request .notFound none
    | some _, none => failed request .conflict none
    | some utaId, some _ =>
      .ask (.get utaId) fun
        | .error e => .ret (.error e)
        | .ok none => failed request .notFound none
        | .ok (some uta) =>
          .ask (.status utaId) fun
            | .error e => .ret (.error e)
            | .ok status =>
              if (truthy status.pendingMessage).isNone then
                presentFresh compactUtaOperation request mode (some ⟨.error, some utaId,
                  "Nothing is waiting for approval on that account."⟩)
              else if maxUtaOperations < status.staged.length then
                presentFresh compactUtaOperation request mode (some ⟨.error, some utaId,
                  s!"This commit has {status.staged.length} operations. " ++
                    "Approve it in OpenAlice → Trading as Git."⟩)
              else
                act compactUtaOperation request mode utaId (labelOr uta.label utaId)

/-- `/readonly/i.test` -/
def mentionsReadonly (message : String) : Bool :=
  "readonly".toList <:+: message.toList.map Char.toLower

/-- The `catch` of `fulfillUtaRequest`. -/
def recover (request : UtaRequest) (e : Thrown) : Bridge Op Unit :=
  if e.isHashConflict then fail request .conflict none
  else if mentionsReadonly e.message then fail request .readonly (some e.message)
  else fail request .deliveryFailed (some (truncate e.message 400))

def fulfillUtaRequest (request : UtaRequest) (now : Int) : Bridge Op Unit :=
  if isConnectorActionExpired request.createdAt now then fail request .expired none
  else
    .look fun _ mode ↦
      (if request.action = .review then presentFresh compactUtaOperation request mode none
        else approve compactUtaOperation request mode).bind fun
        | .ok _ => .ret ()
        | .error e => recover request e

def processConnectorUtaRequests : Bridge Op Unit :=
  .ask .isEnabled fun
    | .ok true =>
      .ask .drainUtaActions fun
        | .ok requests =>
          .look fun now _ ↦ .forEach requests fun request ↦
            fulfillUtaRequest compactUtaOperation request now
        | .error _ => .ret ()
    | _ => .ret ()

end OpenAlice.Connector
