import OpenAlice.Run.Tasks
import OpenAlice.Workspaces.Issues.RoundTrip

/-!
# Edits of one Workspace at the same time

The calls of `updateIssueFields` and `createIssue` of `src/workspaces/issues/mutate.ts`, with the
`readWorkspaceFile` and `writeWorkspaceFile` of `file-service.ts` they make.  A call reads the file
of its Issue, makes of it what is to be written (`Mutate.lean`), and writes that: the file is
opened, which empties it, and what is to be written is written piece by piece, each where the one
before it ended.  Other calls can run between any two of these.

The files are regular ones, and no operation on them fails.  `log` and the file that a call has
read are read by no step.
-/

namespace OpenAlice.Workspaces.Issues

open OpenAlice.Run

abbrev Files := Text → Option Text

/-- What is asked of an Issue. -/
inductive Request where
  | update (patch : IssueFieldPatch)
  | create (input : CreateIssueInput)

structure Edit where
  id : Text
  /-- `allowConnectorDesk` or `allowTelegramConnector`. -/
  allowDesk : Bool
  request : Request

def Edit.written (env : IssueEnv) (edit : Edit) (file : Option Text) : Except Refusal Written :=
  match edit.request with
  | .update patch => updateIssueFields env edit.allowDesk edit.id file patch
  | .create input => createIssue env edit.allowDesk edit.id file input

def Edit.creates (edit : Edit) : Bool :=
  match edit.request with
  | .update _ => false
  | .create _ => true

structure IssueStore where
  files : Files
  log : List Edit := []

inductive IssueCall where
  | update (id : Text) (patch : IssueFieldPatch) (allowDesk : Bool)
  | create (input : CreateIssueInput) (allowDesk : Bool)

inductive EditTask where
  | refused (why : Refusal)
  | reading (edit : Edit)
  /-- Before the file is opened; it was `file` when it was read. -/
  | opening (edit : Edit) (file : Option Text) (written : Written)
  /-- The file is open; `begun` is written, and `rest` is not. -/
  | writing (edit : Edit) (begun rest : Text) (issue : IssueRecord)
  /-- `{ ok: true, issue }` -/
  | returned (edit : Edit) (issue : IssueRecord)

/-- What a call waits for. -/
inductive FileAnswer where
  | read
  | opened
  | wrote (n : Nat)

/-- What a piece makes of a file when it is written at a position; a gap is filled with zeros. -/
def writeAt (content : Text) (position : Nat) (piece : Text) : Text :=
  content.takeD position (Char.ofNat 0) ++ piece ++ content.drop (position + piece.length)

def startEdit (store : IssueStore) (_ : Nat) : IssueCall → IssueStore × EditTask
  | .update id patch allowDesk =>
    (store, if isIssueId id then .reading ⟨id, allowDesk, .update patch⟩ else .refused .notFound)
  | .create input allowDesk =>
    (store, match createId input with
      | .error why => .refused why
      | .ok id => .reading ⟨id, allowDesk, .create input⟩)

def resumeEdit (env : IssueEnv) (store : IssueStore) (_ : Nat) :
    EditTask → FileAnswer → Option (IssueStore × EditTask)
  | .reading edit, .read =>
    match edit.written env (store.files edit.id) with
    | .error why => some (store, .refused why)
    | .ok written => some (store, .opening edit (store.files edit.id) written)
  | .opening edit _ written, .opened =>
    some ({ store with files := Function.update store.files edit.id (some []) },
      .writing edit [] written.content written.issue)
  | .writing edit begun rest issue, .wrote n =>
    let files := Function.update store.files edit.id
      (some (writeAt ((store.files edit.id).getD []) begun.length (rest.take n)))
    if rest.drop n = [] then
      some ({ files, log := store.log ++ [edit] }, .returned edit issue)
    else some ({ store with files }, .writing edit (begun ++ rest.take n) (rest.drop n) issue)
  | _, _ => none

def mutate (env : IssueEnv) : Prog IssueStore EditTask IssueCall FileAnswer where
  start := startEdit
  resume := resumeEdit env

def fresh (files : Files) : World IssueStore EditTask := ⟨{ files }, []⟩

def EditTask.edit? : EditTask → Option Edit
  | .returned edit _ => some edit
  | _ => none

def Resting (W : World IssueStore EditTask) (id : Text) : Prop :=
  ∀ (i : Nat) edit begun rest issue,
    W.tasks[i]? = some (.writing edit begun rest issue) → edit.id ≠ id

end OpenAlice.Workspaces.Issues
