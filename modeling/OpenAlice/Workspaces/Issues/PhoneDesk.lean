import OpenAlice.Data.Grouped
import OpenAlice.Workspaces.Issues.Declaration

/-!
# The phone desk

The way of an owner's message to the comments of a phone desk: the queue of the Connector Service
(`services/connector/src/core/delivery-manager.ts`) and the poll that empties it
(`src/workspaces/issues/telegram-desk-chat.ts`).

One poll runs at a time.  Whatever it waits for is a step of its own, and messages are accepted
between any two of them.  What the host, the files and the network answer is an input of the step;
where they throw, the exception goes up to `tick`, which drops it with everything that the poll
holds.

What was accepted is kept besides, to be compared with.
-/

namespace OpenAlice.Workspaces.Issues

open OpenAlice.Data Scheduling

/-! ## Messages -/

def ownerChatTextMax : Nat := 32768

/-- `InboundOwnerMessage`, as `inboundOwnerMessageSchema` lets it pass. -/
structure InboundOwnerMessage where
  connectorId : String
  userId : String
  chatId : Option String
  text : Text
  connectorId_ne : connectorId ≠ ""
  userId_ne : userId ≠ ""
  chatId_ne : chatId ≠ some ""
  text_ne : text ≠ []
  text_le : utf16Length text ≤ ownerChatTextMax
deriving DecidableEq

/-- `inboundOwnerMessageSchema.safeParse` -/
def parseInbound (connectorId userId : String) (chatId : Option String) (text : Text) :
    Option InboundOwnerMessage :=
  if h : connectorId ≠ "" ∧ userId ≠ "" ∧ chatId ≠ some "" ∧ text ≠ [] ∧
      utf16Length text ≤ ownerChatTextMax then
    some ⟨connectorId, userId, chatId, text, h.1, h.2.1, h.2.2.1, h.2.2.2.1, h.2.2.2.2⟩
  else none

inductive ConnectorCapability where
  | inbox
  | settings
  | uta
  | desk
deriving DecidableEq

/-- The capabilities of `BUILTIN_CONNECTOR_DEFINITIONS`. -/
def builtinConnectorCapabilities : List (String × List ConnectorCapability) :=
  [("discord", [.inbox, .settings, .uta]), ("telegram", [.inbox, .settings, .uta, .desk]),
    ("slack", [.inbox, .settings, .uta]), ("feishu", [.inbox, .settings, .uta, .desk])]

def builtinConnectorHasCapability (connectorId : String) (capability : ConnectorCapability) :
    Bool :=
  ((builtinConnectorCapabilities.lookup connectorId).getD []).contains capability

/-! ## The queue of the Connector Service -/

def maxInboundOwnerMessages : Nat := 100

/-- `acceptInbound` of a message that passes the schema: the oldest ones give way. -/
def acceptInbound (inbound : List InboundOwnerMessage) (message : InboundOwnerMessage) :
    List InboundOwnerMessage :=
  (inbound ++ [message]).drop (inbound.length + 1 - maxInboundOwnerMessages)

def returnInbound (inbound messages : List InboundOwnerMessage) : List InboundOwnerMessage :=
  (messages ++ inbound).take maxInboundOwnerMessages

/-! ## Comments -/

def quoteInboundMessage (text : Text) : Text :=
  List.intercalate ['\n']
    ((lines '\n' text).map fun line ↦ if line = [] then ['>'] else '>' :: ' ' :: line)

def formatTelegramInboundStack (texts : List Text) : Text :=
  match (texts.map trim).filter (· ≠ []) with
  | [] => []
  | [part] => part
  | parts => List.intercalate ['\n'] (parts.map quoteInboundMessage)

structure ConnectorDesk where
  wsId : String
  issueId : String
deriving DecidableEq

structure DeskComment where
  desk : ConnectorDesk
  via : String
  messages : List InboundOwnerMessage
  markdown : Text
  markdown_eq : markdown = trim (formatTelegramInboundStack (messages.map InboundOwnerMessage.text))

def deskComment (desk : ConnectorDesk) (group : String × List InboundOwnerMessage) : DeskComment :=
  ⟨desk, group.1, group.2, _, rfl⟩

/-! ## The poll -/

abbrev Group := String × List InboundOwnerMessage

inductive Poll where
  | idle
  | draining
  | transit (messages : List InboundOwnerMessage)
  /-- `findLiveDesk` in `pullTelegramDeskInbound`. -/
  | looking (group : Group) (rest : List Group) (leftover : List InboundOwnerMessage)
  /-- `findLiveDesk` in `ingestConnectorOwnerMessages`. -/
  | rechecking (group : Group) (rest : List Group) (leftover : List InboundOwnerMessage)
  /-- `appendIssueComment` -/
  | appending (desk : ConnectorDesk) (group : Group) (rest : List Group)
      (leftover : List InboundOwnerMessage)
  | crediting (rest : List Group) (leftover : List InboundOwnerMessage)
  /-- `dispatchIssueCommentReply`, which does not throw. -/
  | dispatching (rest : List Group) (leftover : List InboundOwnerMessage)
  /-- `updateIssueCommentDelivery` -/
  | settling (rest : List Group) (leftover : List InboundOwnerMessage)
  /-- `projectDeskLifecycle`, whose exceptions are caught. -/
  | projecting (rest : List Group) (leftover : List InboundOwnerMessage)
  /-- The service, to take messages back. -/
  | returning (leftover : List InboundOwnerMessage)
  | returned
deriving DecidableEq

/-- The connector service, the poll and the comments. -/
structure PhoneDesk where
  inbound : List InboundOwnerMessage := []
  stopped : Bool := false
  poll : Poll := .idle
  comments : List DeskComment := []
  accepted : List InboundOwnerMessage := []

inductive PhoneEvent where
  /-- `acceptInbound` -/
  | accept (connectorId userId : String) (chatId : Option String) (text : Text)
  /-- The timer of `startTelegramDeskInboundPoll`. -/
  | tick
  | stop
  | answered
  | thrown
  /-- `findLiveDesk`, and whether the desk is generating. -/
  | looked (desk : Option ConnectorDesk) (generating : Bool)
  /-- `findLiveDesk`, and whether there is the workspace. -/
  | rechecked (desk : Option ConnectorDesk) (workspace : Bool)
  /-- `ok` of an append. -/
  | appended (ok : Bool)
  | dispatched (requested : Bool)

/-- The loop over the groups, up to the next `await`. -/
def pullGroups (leftover : List InboundOwnerMessage) : List Group → Poll
  | [] => if leftover = [] then .idle else .returning leftover
  | group :: rest =>
    if builtinConnectorHasCapability group.1 .desk then .looking group rest leftover
    else pullGroups leftover rest

/-- `ingestConnectorOwnerMessages` up to its first `await`: whether it gets there. -/
def ingestStarts (messages : List InboundOwnerMessage) : Bool :=
  match messages with
  | [] => false
  | message :: _ =>
    !messages.any (·.connectorId ≠ message.connectorId) &&
      builtinConnectorHasCapability message.connectorId .desk &&
      formatTelegramInboundStack (messages.map InboundOwnerMessage.text) ≠ []

def Poll.throws : Poll → Bool
  | .idle | .dispatching _ _ | .projecting _ _ => false
  | _ => true

def PhoneDesk.step (s : PhoneDesk) : PhoneEvent → Option PhoneDesk
  | .accept connectorId userId chatId text =>
    match parseInbound connectorId userId chatId text with
    | none => some s
    | some message =>
      some { s with
        inbound := acceptInbound s.inbound message, accepted := s.accepted ++ [message] }
  | .tick => some (if s.stopped ∨ s.poll ≠ .idle then s else { s with poll := .draining })
  | .stop => some { s with stopped := true }
  | .thrown => if s.poll.throws then some { s with poll := .idle } else none
  | .answered =>
    match s.poll with
    -- The whole queue is removed before the response is sent.
    | .draining =>
      some { s with
        inbound := s.inbound.drop maxInboundOwnerMessages
        poll := .transit (s.inbound.take maxInboundOwnerMessages) }
    | .transit messages =>
      some { s with poll := pullGroups [] (groupsOf InboundOwnerMessage.connectorId messages) }
    | .crediting rest leftover => some { s with poll := .dispatching rest leftover }
    | .settling rest leftover => some { s with poll := .projecting rest leftover }
    | .projecting rest leftover => some { s with poll := pullGroups leftover rest }
    | .returning leftover =>
      some { s with inbound := returnInbound s.inbound leftover, poll := .returned }
    | .returned => some { s with poll := .idle }
    | _ => none
  | .looked desk generating =>
    match s.poll with
    | .looking group rest leftover =>
      if desk = none ∨ generating then
        some { s with poll := pullGroups (leftover ++ group.2) rest }
      else if ingestStarts group.2 then some { s with poll := .rechecking group rest leftover }
      else some { s with poll := pullGroups leftover rest }
    | _ => none
  | .rechecked desk workspace =>
    match s.poll, desk with
    | .rechecking group rest leftover, some desk =>
      if workspace then some { s with poll := .appending desk group rest leftover }
      else some { s with poll := pullGroups leftover rest }
    | .rechecking _ rest leftover, none => some { s with poll := pullGroups leftover rest }
    | _, _ => none
  | .appended ok =>
    match s.poll with
    | .appending desk group rest leftover =>
      if ok then
        some { s with
          comments := s.comments ++ [deskComment desk group], poll := .crediting rest leftover }
      else some { s with poll := pullGroups leftover rest }
    | _ => none
  | .dispatched requested =>
    match s.poll with
    | .dispatching rest leftover =>
      some { s with
        poll := if requested then .settling rest leftover else .projecting rest leftover }
    | _ => none

section

-- The equations are made here, once.
attribute [local simp] PhoneDesk.step

end

end OpenAlice.Workspaces.Issues
