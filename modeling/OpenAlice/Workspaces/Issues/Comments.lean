import OpenAlice.Run.Tasks
import OpenAlice.Scheduling.Scanner

/-!
# Comments of an Issue and their delivery

`src/workspaces/issues/comments.ts` and `comment-delivery.ts` for one Issue, with the callers that
append a comment and dispatch its reply (`POST comments`, the comment tool, the phone desk).

The mutations of the sidecar are serialised, so each of them is one step; what a caller does
between two mutations takes its time.  The sidecar is written in place: a write can fail before
it opens the file, or leave the file torn.  A sidecar is read through its schema, so a comment that
does not pass it makes the whole sidecar unreadable.

A run is started while its dispatcher still waits for `ask`, and its reply can be recorded from then
on, any number of times.
-/

namespace OpenAlice.Workspaces.Issues

open OpenAlice.Run

/-! ## `comments.ts` -/

/-- An id of a comment.  The texts of different shapes differ, and so do two draws. -/
inductive CommentId where
  /-- With a random part. -/
  | random (draw : Nat)
  /-- `comment-reply-${taskId}` -/
  | reply (taskId : String)
  /-- `comment-fire-${taskId}` -/
  | fire (taskId : String)
deriving DecidableEq

/-- `HeadlessProgressBlock` -/
inductive ProgressBlock where
  | text (text : String)
  | tool (id name status : String)
  | error (message : String)
deriving DecidableEq

/-- `HeadlessTurnProgress` -/
structure TurnProgress where
  updatedAt : Nat
  assistantText : Option String
  blocks : List ProgressBlock
  textBlocks : Nat
  toolCalls : Nat
  toolFailures : Nat
deriving DecidableEq

/-- `progressFingerprint`: all but the moment. -/
def TurnProgress.fingerprint (progress : TurnProgress) : TurnProgress :=
  { progress with updatedAt := 0 }

def progressChanged (previous : Option TurnProgress) (next : TurnProgress) : Bool :=
  previous.map TurnProgress.fingerprint ≠ some next.fingerprint

/-- `IssueCommentDelivery` -/
inductive Delivery where
  | pending (targetResumeId taskId : String) (progress : Option TurnProgress)
  | replied (targetResumeId taskId : String) (replyCommentId : CommentId)
  | failed (targetResumeId taskId : Option String) (error : String)
deriving DecidableEq

abbrev ConnectorId := {id : String // id ≠ "" ∧ id.length ≤ 64}

structure IssueComment where
  id : CommentId
  author : String
  «at» : Nat
  markdown : String
  replyTo : Option CommentId
  delivery : Option Delivery
  via : Option ConnectorId
deriving DecidableEq

/-- `issueCommentDeliverySchema` -/
def Delivery.parses : Delivery → Bool
  | .pending targetResumeId taskId _ => targetResumeId ≠ "" && taskId ≠ ""
  | .replied targetResumeId taskId _ => targetResumeId ≠ "" && taskId ≠ ""
  | .failed targetResumeId taskId error =>
    targetResumeId ≠ some "" && taskId ≠ some "" && error ≠ ""

/-- `issueCommentSchema` -/
def IssueComment.parses (comment : IssueComment) : Bool :=
  comment.author ≠ "" && comment.markdown ≠ "" && comment.delivery.all Delivery.parses

/-- What `readIssueComments` finds after a write; nothing, when it cannot read it. -/
def readComments (comments : List IssueComment) : Option (List IssueComment) :=
  if comments.all IssueComment.parses then some comments else none

inductive Write where
  | done
  | refused
  | torn
deriving DecidableEq

/-- What a mutation makes of the comments that it reads. -/
inductive Change where
  | error
  | same
  | write (comments : List IssueComment)

/-- What can be read afterwards, and whether the mutation went well. -/
def mutateIssueComments (sidecar : Option (List IssueComment))
    (mutation : List IssueComment → Change) (write : Write) :
    Option (List IssueComment) × Bool :=
  match sidecar with
  | none => (none, false)
  | some existing =>
    match mutation existing, write with
    | .error, _ => (some existing, false)
    | .same, _ => (some existing, true)
    | .write comments, .done => (readComments comments, true)
    | .write _, .refused => (some existing, false)
    | .write _, .torn => (none, false)

/-- `appendIssueComment`; an id that is given is looked up first. -/
def appendComment (given : Bool) (comment : IssueComment) (existing : List IssueComment) : Change :=
  if given ∧ existing.any (·.id = comment.id) then .same else .write (existing ++ [comment])

def changeComment (id : CommentId) (change : IssueComment → Option IssueComment)
    (existing : List IssueComment) : Change :=
  match existing.findIdx? (·.id = id) with
  | none => .error
  | some index =>
    match (existing[index]?).bind change with
    | none => .error
    | some comment => .write (existing.set index comment)

/-- `updateIssueCommentDelivery` -/
def updateDelivery (id : CommentId) (delivery : Delivery) (existing : List IssueComment) : Change :=
  changeComment id (fun comment ↦ some { comment with delivery := some delivery }) existing

def Delivery.withProgress (progress : TurnProgress) : Delivery → Option Delivery
  | .pending targetResumeId taskId _ => some (.pending targetResumeId taskId (some progress))
  | _ => none

def IssueComment.hasProgress (progress : TurnProgress) (comment : IssueComment) : Bool :=
  match comment.delivery with
  | some (.pending _ _ previous) => !progressChanged previous progress
  | _ => false

/-- `updateIssueCommentProgress` -/
def updateProgress (id : CommentId) (progress : TurnProgress) (existing : List IssueComment) :
    Change :=
  if (existing.find? (·.id = id)).any (IssueComment.hasProgress progress) then .same
  else
    changeComment id (fun comment ↦ (comment.delivery.bind (Delivery.withProgress progress)).map
      fun delivery ↦ { comment with delivery := some delivery }) existing

/-! ## `comment-delivery.ts` -/

structure ReplyRun where
  taskId : String
  resumeId : String
  sourceCommentId : CommentId

/-- What somebody wants to append. -/
structure Draft where
  author : String
  text : String
  id : Option CommentId := none
  replyTo : Option CommentId := none
  via : Option ConnectorId := none

/-- Who appends a comment and dispatches its reply. -/
structure Caller where
  authorResumeId : Option String := none
  /-- `source.kind` is `human`. -/
  human : Bool := true
  /-- There is a `conversation`. -/
  conversation : Bool := true

/-- What follows an append. -/
inductive Follow where
  | nothing
  | dispatch (caller : Caller)
  | close (run : ReplyRun)

inductive CommentJob where
  /-- `appendIssueComment` -/
  | appending (draft : Draft) (follow : Follow)
  /-- The provenance of a comment, before its reply is dispatched. -/
  | noting (owner : Option String) (id : CommentId) (caller : Caller)
  /-- `conversation.ask`, before a run is started. -/
  | asking (owner : Option String) (id : CommentId)
  /-- `conversation.ask`, after a run is started. -/
  | asked (owner : Option String) (run : ReplyRun)
  /-- `updateIssueCommentDelivery` of the dispatcher. -/
  | settling (id : CommentId) (delivery : Delivery)
  | crediting (run : ReplyRun)
  /-- `updateIssueCommentDelivery` of `recordIssueCommentReply`. -/
  | closing (run : ReplyRun) (delivery : Delivery)
  /-- `updateIssueCommentProgress` -/
  | progressing (id : CommentId) (progress : TurnProgress)
  /-- The call is over. -/
  | ended

inductive CommentCall where
  | append (draft : Draft)
  | comment (draft : Draft) (caller : Caller)
  /-- `recordIssueCommentReply`, for a run of the given number. -/
  | record (run : Nat) (status : String) (assistantText error : Option String)
  | progress (id : CommentId) (progress : TurnProgress)

inductive CommentAnswer where
  /-- The Issue is read (its `assigneeResumeId`), unless it is missing or invalid; an id is drawn,
  the clock is read, and the sidecar is written. -/
  | appended (owner : Option (Option String)) (draw now : Nat) (write : Write)
  | wrote (write : Write)
  | done
  | thrown (message : String)
  | started (taskId resumeId : String)
  /-- `ask` reaches nobody. -/
  | unavailable (attributed : Option String) (reason : String)
deriving DecidableEq

/-- The sidecar, and the runs that were started. -/
structure Comments where
  /-- Nothing, when the sidecar cannot be read. -/
  sidecar : Option (List IssueComment) := some []
  runs : List ReplyRun := []

def trimmed (text : String) : String := String.ofList (Scheduling.trim text.toList)

def nonEmpty (text : Option String) : Option String := text.filter (· ≠ "")

/-- `issueCommentReplyPrompt` and the rest of a dispatch up to its first `await`. -/
def dispatchIssueCommentReply (owner : Option String) (id : CommentId) (caller : Caller) :
    CommentJob :=
  if owner.isSome ∧ owner = caller.authorResumeId then .ended
  else if owner = none ∧ caller.human = false then .ended
  else if caller.conversation = false then
    .settling id (.failed owner none "Issue conversation delivery is unavailable in this runtime.")
  else .asking owner id

/-- `recordIssueCommentReply` up to its first `await`. -/
def recordIssueCommentReply (run : ReplyRun) (status : String)
    (assistantText error : Option String) : CommentJob :=
  let reply := (assistantText.map trimmed).getD ""
  if status = "done" ∧ reply ≠ "" then
    .appending
      { author := "@" ++ run.resumeId, text := reply, id := some (.reply run.taskId),
        replyTo := some run.sourceCommentId } (.close run)
  else
    .closing run (.failed (some run.resumeId) (some run.taskId) ((nonEmpty error).getD
      (if status = "done" then "The Issue reply Agent finished without a final reply."
        else "The Issue reply run ended as " ++ status ++ ".")))

def Follow.job (owner : Option String) (id : CommentId) : Follow → CommentJob
  | .nothing => .ended
  | .dispatch caller => .noting owner id caller
  | .close run => .crediting run

def Comments.append (s : Comments) (draft : Draft) (follow : Follow) (owner : Option String)
    (draw now : Nat) (write : Write) : Comments × CommentJob :=
  let author := trimmed draft.author
  let markdown := trimmed draft.text
  if author = "" ∨ markdown = "" then (s, .ended)
  else
    let comment : IssueComment :=
      { id := draft.id.getD (.random draw), author, «at» := now, markdown, replyTo := draft.replyTo,
        delivery := none, via := draft.via }
    let (sidecar, ok) := mutateIssueComments s.sidecar (appendComment draft.id.isSome comment) write
    ({ s with sidecar }, if ok then follow.job owner comment.id else .ended)

def Comments.settle (s : Comments) (mutation : List IssueComment → Change) (write : Write) :
    Comments × CommentJob :=
  ({ s with sidecar := (mutateIssueComments s.sidecar mutation write).1 }, .ended)

def commentProg : Prog Comments CommentJob CommentCall CommentAnswer where
  start s _ call :=
    (s, match call with
      | .append draft => .appending draft .nothing
      | .comment draft caller => .appending draft (.dispatch caller)
      | .record run status assistantText error =>
        match s.runs[run]? with
        | none => .ended
        | some run => recordIssueCommentReply run status assistantText error
      | .progress id progress => .progressing id progress)
  resume s _ job answer :=
    match job, answer with
    | .appending _ _, .appended none _ _ _ => some (s, .ended)
    | .appending draft follow, .appended (some owner) draw now write =>
      -- A drawn id is new, whatever is in the sidecar.
      if draft.id = none ∧ (s.sidecar.getD []).any (·.id = .random draw) then none
      else some (s.append draft follow (nonEmpty owner) draw now write)
    | .noting owner id caller, .done => some (s, dispatchIssueCommentReply owner id caller)
    | .noting _ _ _, .thrown _ => some (s, .ended)
    | .asking owner id, .started taskId resumeId =>
      if taskId = "" ∨ resumeId = "" ∨ s.runs.any (·.taskId = taskId) then none
      else
        let run := ⟨taskId, resumeId, id⟩
        some ({ s with runs := s.runs ++ [run] }, .asked owner run)
    | .asking owner id, .unavailable attributed reason =>
      some (s, .settling id (.failed (owner.or (nonEmpty attributed)) none
        ("Could not reach an Agent for this Issue: " ++ reason ++ ".")))
    | .asking owner id, .thrown message => some (s, .settling id (.failed owner none message))
    | .asked _ run, .done =>
      some (s, .settling run.sourceCommentId (.pending run.resumeId run.taskId none))
    | .asked owner run, .thrown message =>
      some (s, .settling run.sourceCommentId (.failed owner none message))
    | .settling id delivery, .wrote write => some (s.settle (updateDelivery id delivery) write)
    | .crediting run, .done =>
      some (s, .closing run (.replied run.resumeId run.taskId (.reply run.taskId)))
    | .crediting _, .thrown _ => some (s, .ended)
    | .closing run delivery, .wrote write =>
      some (s.settle (updateDelivery run.sourceCommentId delivery) write)
    | .progressing id progress, .wrote write => some (s.settle (updateProgress id progress) write)
    | _, _ => none

end OpenAlice.Workspaces.Issues
