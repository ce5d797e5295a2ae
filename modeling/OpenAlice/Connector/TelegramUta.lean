import OpenAlice.Connector.UtaReview
import OpenAlice.Run.Basic

/-!
# The approval page of Telegram

`transitionTelegramUta` of `services/connector/src/adapters/telegram-uta.ts`, and what the adapter
(`telegram.ts`) does around it.  A message has a session, which says what its page shows; a control
of the page leads to another page, or puts a request into the queue of the connector service; the
answer to a request replaces the session.

A page is kept as what it is made from, not as its text.  The adapter deals with one control after
another.  A control or an answer comes with what became of the calls to Telegram that it makes; a
call that fails changes nothing.
-/

namespace OpenAlice.Connector

open OpenAlice.Run OpenAlice.Trading

/-! ## Pages and sessions -/

/-- The two things that can be approved on a confirm page. -/
inductive ConfirmKind where
  | push
  | reject

def ConfirmKind.action : ConfirmKind → UtaAction
  | .push => .push
  | .reject => .reject

inductive Page where
  /-- `formatTelegramUtaLoadingPage` -/
  | loading (reason : String)
  /-- `formatTelegramUtaListPage` -/
  | list (review : UtaReview) (result : Option UtaResult)
  /-- `formatTelegramUtaDetailPage` -/
  | detail (account : AccountReview) (readonly : Bool)
  /-- `formatTelegramUtaConfirmPage` -/
  | confirm (account : AccountReview) (kind : ConfirmKind)

/-- `TelegramUtaControl` -/
inductive UtaControl where
  | refresh
  | account (index : Nat)
  | back
  | push
  | reject
  | confirm
  | cancel
deriving DecidableEq

/-- `view` of a session. -/
inductive UtaView where
  | list
  | detail (index : Nat)
  | confirm (kind : ConfirmKind) (index : Nat)
  | loading (reason : String)

/-- `TelegramUtaSession` -/
structure UtaSession where
  accountIds : List String
  review : Option UtaReview := none
  result : Option UtaResult := none
  requestId : Option Nat := none
  consumed : Bool := false
  view : Option UtaView := none

/-- `TelegramUtaResolution` -/
inductive UtaResolution where
  | forbidden
  | ignored
  | expired
  | show (form : Page) (session : UtaSession)
  | enqueue (action : UtaAction) (utaId pendingHash : Option String) (form : Page)
      (session : UtaSession)

def isRemoteActionable (account : AccountReview) : Bool :=
  (truthy account.pendingMessage).isSome && (truthy account.pendingHash).isSome &&
    account.hiddenOperationCount == 0

def selectedAccountIndex (session : UtaSession) : Option Nat :=
  match session.view with
  | some (.detail index) | some (.confirm _ index) => some index
  | _ => none

def askingText : String := "Asking OpenAlice for the current UTA review…"

def approvingText : ConfirmKind → String
  | .push => "Pushing to the broker…"
  | .reject => "Rejecting the pending commit…"

def transitionAccount (session : UtaSession) (review : UtaReview) (index : Nat)
    (account : AccountReview) : UtaControl → UtaResolution
  | .push =>
    if !isRemoteActionable account || review.readonly then
      .show (.detail account review.readonly) { session with view := some (.detail index) }
    else .show (.confirm account .push) { session with view := some (.confirm .push index) }
  | .reject =>
    if !isRemoteActionable account then
      .show (.detail account review.readonly) { session with view := some (.detail index) }
    else .show (.confirm account .reject) { session with view := some (.confirm .reject index) }
  | .cancel =>
    .show (.detail account review.readonly) { session with view := some (.detail index) }
  | .confirm =>
    match session.view with
    | some (.confirm kind _) =>
      if !isRemoteActionable account || (truthy account.pendingHash).isNone then .expired
      else .enqueue kind.action (some account.id) account.pendingHash
        (.loading (approvingText kind))
        { session with consumed := true, view := some (.loading (approvingText kind)) }
    | _ => .expired
  | _ => .ignored

def transitionReview (session : UtaSession) (review : UtaReview) : UtaControl → UtaResolution
  | .account index =>
    match review.accounts[index]? with
    | none => .expired
    | some account =>
      .show (.detail account review.readonly) { session with view := some (.detail index) }
  | .back => .show (.list review session.result) { session with view := some .list }
  | control =>
    match selectedAccountIndex session with
    | none => .expired
    | some index =>
      match review.accounts[index]? with
      | none => .expired
      | some account => transitionAccount session review index account control

def UtaControl.isApproval : UtaControl → Bool
  | .push | .reject | .confirm => true
  | _ => false

def transitionTelegramUta (session : Option UtaSession) (control : UtaControl) (isOwner : Bool) :
    UtaResolution :=
  if !isOwner then .forbidden
  else if control = .refresh then
    .enqueue .review none none (.loading askingText)
      { accountIds := (session.map UtaSession.accountIds).getD [],
        review := session.bind UtaSession.review,
        view := some (.loading askingText) }
  else
    match session with
    | none => .expired
    | some session =>
      match session.review with
      | none => .expired
      | some review =>
        match session.view with
        | some (.loading _) => .ignored
        | _ =>
          if session.consumed && control.isApproval then .expired
          else transitionReview session review control

/-! ## The adapter -/

/-- A request that was put into the queue, with the page that its message showed then, and how
many reviews the message had shown. -/
structure Enqueued where
  requestId : Nat
  message : Nat
  action : UtaAction
  utaId : Option String
  pendingHash : Option String
  page : Option Page
  review : Nat

/-- The adapter.  The page of a message, the number of reviews it has shown, and the history are
read by nothing. -/
structure Telegram where
  /-- `utaSessions` -/
  sessions : Nat → Option UtaSession
  /-- `utaPending` -/
  pending : Nat → Option Nat
  nextRequest : Nat
  pages : Nat → Option Page
  reviews : Nat → Nat
  history : List Enqueued

def Telegram.initial : Telegram where
  sessions _ := none
  pending _ := none
  nextRequest := 0
  pages _ := none
  reviews _ := 0
  history := []

structure Calls where
  /-- `answerCallbackQuery` -/
  answered : Bool
  /-- `enqueueUtaRequest` took the request. -/
  accepted : Bool
  shown : Bool

inductive TelegramEvent where
  /-- The owner sends `/uta`, and is answered with a new message. -/
  | command (message : Nat) (calls : Calls)
  | control (message : Nat) (control : UtaControl) (isOwner : Bool) (calls : Calls)
  /-- `presentUta` -/
  | present (requestId : Nat) (review : UtaReview) (result : Option UtaResult) (shown : Bool)
  /-- `failUta` -/
  | fail (requestId : Nat)

namespace Telegram

def shows (T : Telegram) (message : Nat) (page : Page) (session : UtaSession) : Telegram :=
  { T with
    sessions := Function.update T.sessions message (some session)
    pages := Function.update T.pages message (some page) }

def enqueue (T : Telegram) (message : Nat) (action : UtaAction)
    (utaId pendingHash : Option String) : Telegram :=
  { T with
    nextRequest := T.nextRequest + 1
    history := T.history ++ [⟨T.nextRequest, message, action, utaId, pendingHash,
      T.pages message, T.reviews message⟩] }

def expects (T : Telegram) (requestId message : Nat) : Telegram :=
  { T with pending := Function.update T.pending requestId (some message) }

/-- `presentUtaCommand` of the owner: the page is sent as a new message. -/
def command (T : Telegram) (message : Nat) (calls : Calls) : Telegram :=
  if !calls.shown then T
  else
    let T := { T with pages := Function.update T.pages message (some (.loading askingText)) }
    if !calls.accepted then T
    else
      let requestId := T.nextRequest
      ((T.enqueue message .review none none).shows message (.loading askingText)
        { accountIds := [], requestId := some requestId,
          view := some (.loading askingText) }).expects requestId message

/-- `handleUtaControl`, with a resolution. -/
def resolve (T : Telegram) (message : Nat) (calls : Calls) : UtaResolution → Telegram
  | .forbidden | .ignored | .expired => T
  | .show form session => if calls.shown then T.shows message form session else T
  | .enqueue action utaId pendingHash form session =>
    if !calls.accepted then T
    else
      let requestId := T.nextRequest
      let T := T.enqueue message action utaId pendingHash
      if !calls.shown then T
      else
        (T.shows message form { session with requestId := some requestId }).expects requestId
          message

def presentUta (T : Telegram) (requestId : Nat) (review : UtaReview) (result : Option UtaResult)
    (shown : Bool) : Telegram :=
  match T.pending requestId with
  | none => T
  | some message =>
    let T := { T with pending := Function.update T.pending requestId none }
    if !shown then T
    else
      { T.shows message (.list review result)
          { accountIds := review.accounts.map AccountReview.id, review := some review, result,
            view := some .list } with
        reviews := Function.update T.reviews message (T.reviews message + 1) }

def step (T : Telegram) : TelegramEvent → Option Telegram
  | .command message calls =>
    if (T.sessions message).isSome then none else some (T.command message calls)
  | .control message control isOwner calls =>
    if !calls.answered then some T
    else some (T.resolve message calls
      (transitionTelegramUta (T.sessions message) control isOwner))
  | .present requestId review result shown => some (T.presentUta requestId review result shown)
  | .fail requestId =>
    some { T with pending := Function.update T.pending requestId none }

end Telegram

end OpenAlice.Connector
