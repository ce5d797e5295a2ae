import Mathlib.Data.List.Nodup
import OpenAlice.Workspaces.Issues.Comments

/-!
# Comments are kept, and a delivery is final

Every step adds a comment at the end, changes the delivery of one comment, or leaves the comments
as they are (`Edits`).  So no comment is lost or moved, and an id that is looked up before it is
appended is there once.

What is not true of every run is that a delivery is final.  The dispatcher records the pending
delivery after the run has been started, so a run that ends first is recorded first, and is pending
from then on (`pending_again`).  Where no reply is recorded as long as the dispatcher of its run
has still to record the pending delivery (`Orderly`), a delivery that is replied or failed for a run
never becomes pending for it again.  The sidecar also has to survive: no write is torn, and no
exception without a text is recorded as the error of a delivery.
-/

namespace OpenAlice.Workspaces.Issues

open OpenAlice.Run

/-! ## What is said of a run -/

def Delivery.awaits : Delivery → Option String
  | .pending _ taskId _ => some taskId
  | _ => none

def Delivery.closes : Delivery → Option String
  | .replied _ taskId _ => some taskId
  | .failed _ taskId _ => taskId
  | .pending _ _ _ => none

def IssueComment.Awaits (comment : IssueComment) (taskId : String) : Prop :=
  comment.delivery.bind Delivery.awaits = some taskId

def IssueComment.Closed (comment : IssueComment) (taskId : String) : Prop :=
  comment.delivery.bind Delivery.closes = some taskId

def IssueComment.core (comment : IssueComment) : IssueComment := { comment with delivery := none }

/-- The run whose pending delivery a call has still to record. -/
def CommentJob.pends : CommentJob → Option String
  | .asked _ run => some run.taskId
  | .settling _ delivery => delivery.awaits
  | _ => none

def CommentJob.records : CommentJob → Option String
  | .closing run _ => some run.taskId
  | _ => none

/-! ## What a step does to the comments -/

/-- A comment is added at the end, or a delivery changes as `may` says, or nothing changes. -/
inductive Edits (may : IssueComment → Delivery → Prop) (l : List IssueComment) :
    List IssueComment → Prop
  | same : Edits may l l
  | append {comment : IssueComment} : comment.id ∉ l.map IssueComment.id →
      comment.delivery = none → comment.parses = true → Edits may l (l ++ [comment])
  | deliver {i : Nat} {comment : IssueComment} {delivery : Delivery} : l[i]? = some comment →
      may comment delivery → Edits may l (l.set i { comment with delivery := some delivery })

section Edits

variable {may : IssueComment → Delivery → Prop} {l l' : List IssueComment} {taskId : String}

theorem Edits.mono {may' : IssueComment → Delivery → Prop} (h : Edits may l l')
    (hle : ∀ comment delivery, may comment delivery → may' comment delivery) :
    Edits may' l l' := by
  cases h with
  | same => exact .same
  | append hnew hnone hparses => exact .append hnew hnone hparses
  | deliver hi hmay => exact .deliver hi (hle _ _ hmay)

theorem Edits.cases_getElem (h : Edits may l l') {j : Nat} {comment : IssueComment}
    (hj : l'[j]? = some comment) :
    l[j]? = some comment ∨ comment.delivery = none ∨
      ∃ old delivery, l[j]? = some old ∧ may old delivery ∧
        comment = { old with delivery := some delivery } := by
  cases h with
  | same => exact .inl hj
  | append _ hnone _ =>
    rcases World.task_append hj with hj | ⟨-, rfl⟩
    · exact .inl hj
    · exact .inr (.inl hnone)
  | deliver hi hmay =>
    rcases World.task_set hj with ⟨rfl, rfl⟩ | ⟨-, hj⟩
    · exact .inr (.inr ⟨_, _, hi, hmay, rfl⟩)
    · exact .inl hj

theorem Edits.core (h : Edits may l l') : l.map IssueComment.core <+: l'.map IssueComment.core := by
  cases h with
  | same => exact List.prefix_rfl
  | append => exact ⟨_, (List.map_append ..).symm⟩
  | @deliver i comment delivery hi =>
    have hsame : (l.set i { comment with delivery := some delivery }).map IssueComment.core =
        l.map IssueComment.core := by
      refine List.ext_getElem? fun j ↦ ?_
      rw [List.getElem?_map, List.getElem?_map]
      rcases eq_or_ne i j with rfl | hne
      · rw [List.getElem?_set_self (List.getElem?_eq_some_iff.mp hi).1, hi]
        rfl
      · rw [List.getElem?_set_ne hne]
    exact hsame ▸ List.prefix_rfl

theorem Edits.nodup (h : Edits may l l') (hl : (l.map IssueComment.id).Nodup) :
    (l'.map IssueComment.id).Nodup := by
  cases h with
  | same => exact hl
  | append hnew =>
    rw [List.map_append]
    refine List.nodup_append.mpr ⟨hl, List.pairwise_singleton _ _, ?_⟩
    rintro a ha b hb rfl
    exact hnew (List.mem_singleton.mp hb ▸ ha)
  | @deliver i comment delivery hi =>
    have hsame : (l.set i { comment with delivery := some delivery }).map IssueComment.id =
        l.map IssueComment.id := by
      refine List.ext_getElem? fun j ↦ ?_
      rw [List.getElem?_map, List.getElem?_map]
      rcases eq_or_ne i j with rfl | hne
      · rw [List.getElem?_set_self (List.getElem?_eq_some_iff.mp hi).1, hi]
        rfl
      · rw [List.getElem?_set_ne hne]
    rwa [hsame]

theorem Edits.parses (h : Edits may l l') (hl : l.all IssueComment.parses = true)
    (hmay : ∀ comment delivery, comment.parses = true → may comment delivery →
      delivery.parses = true) : l'.all IssueComment.parses = true := by
  rw [List.all_eq_true] at hl ⊢
  cases h with
  | same => exact hl
  | append _ _ hparses =>
    intro comment hmem
    rcases List.mem_append.mp hmem with hmem | hmem
    · exact hl comment hmem
    · rwa [List.mem_singleton.mp hmem]
  | @deliver i old delivery hi hdeliver =>
    intro comment hmem
    rcases List.mem_or_eq_of_mem_set hmem with hmem | rfl
    · exact hl comment hmem
    have hold := hl old (List.mem_of_getElem? hi)
    rw [IssueComment.parses, Bool.and_eq_true] at hold ⊢
    exact ⟨hold.1, hmay old delivery (hl old (List.mem_of_getElem? hi)) hdeliver⟩

end Edits

/-! ## The mutations -/

section Mutations

variable {may : IssueComment → Delivery → Prop} {l l' : List IssueComment} {id : CommentId}

theorem edits_appendComment {given : Bool} {comment : IssueComment}
    (hfresh : given = false → comment.id ∉ l.map IssueComment.id)
    (hnone : comment.delivery = none) (hparses : comment.parses = true)
    (h : appendComment given comment l = .write l') : Edits may l l' := by
  rw [appendComment] at h
  split_ifs at h with hgiven
  cases h
  refine .append ?_ hnone hparses
  cases given with
  | false => exact hfresh rfl
  | true =>
    intro hmem
    obtain ⟨old, hold, hid⟩ := List.mem_map.mp hmem
    exact hgiven ⟨rfl, List.any_eq_true.mpr ⟨old, hold, decide_eq_true hid⟩⟩

theorem edits_changeComment {change : IssueComment → Option IssueComment}
    (hchange : ∀ comment comment', change comment = some comment' →
      ∃ delivery, may comment delivery ∧ comment' = { comment with delivery := some delivery })
    (h : changeComment id change l = .write l') : Edits may l l' := by
  rw [changeComment] at h
  split at h
  · cases h
  split at h
  · cases h
  next index _ comment' hcomment =>
    cases h
    obtain ⟨comment, hi, hcomment⟩ := Option.bind_eq_some_iff.mp hcomment
    obtain ⟨delivery, hmay, rfl⟩ := hchange comment comment' hcomment
    exact .deliver hi hmay

theorem edits_updateDelivery {delivery : Delivery} (h : updateDelivery id delivery l = .write l') :
    Edits (fun _ d ↦ d = delivery) l l' := by
  refine edits_changeComment (fun comment comment' hcomment ↦ ?_) h
  exact ⟨delivery, rfl, (Option.some.inj hcomment).symm⟩

/-- Progress goes from one pending delivery to another one for the same run. -/
def Progresses (comment : IssueComment) (delivery : Delivery) : Prop :=
  ∃ target taskId before after, comment.delivery = some (.pending target taskId before) ∧
    delivery = .pending target taskId after

theorem Progresses.parses {comment : IssueComment} {delivery : Delivery}
    (hparses : comment.parses = true) (h : Progresses comment delivery) :
    delivery.parses = true := by
  obtain ⟨target, taskId, before, after, hold, rfl⟩ := h
  rw [IssueComment.parses, Bool.and_eq_true, hold] at hparses
  exact hparses.2

theorem edits_updateProgress {progress : TurnProgress}
    (h : updateProgress id progress l = .write l') : Edits Progresses l l' := by
  rw [updateProgress] at h
  split_ifs at h
  refine edits_changeComment (fun comment comment' hcomment ↦ ?_) h
  obtain ⟨delivery, hdelivery, rfl⟩ := Option.map_eq_some_iff.mp hcomment
  obtain ⟨old, hold, hnew⟩ := Option.bind_eq_some_iff.mp hdelivery
  cases old with
  | pending target taskId before =>
    exact ⟨delivery, ⟨target, taskId, before, _, hold, (Option.some.inj hnew).symm⟩, rfl⟩
  | replied => cases hnew
  | failed => cases hnew

theorem edits_mutate {mutation : List IssueComment → Change} {write : Write}
    (hl : l.all IssueComment.parses = true) (htorn : write ≠ .torn)
    (hmay : ∀ comment delivery, comment.parses = true → may comment delivery →
      delivery.parses = true)
    (hmutation : ∀ l', mutation l = .write l' → Edits may l l') :
    ∃ l', (mutateIssueComments (some l) mutation write).1 = some l' ∧
      Edits (fun comment delivery ↦ may comment delivery ∧ write = .done) l l' := by
  cases hchange : mutation l with
  | error => exact ⟨l, by simp only [mutateIssueComments, hchange], .same⟩
  | same => exact ⟨l, by simp only [mutateIssueComments, hchange], .same⟩
  | write l' =>
    have hedits := hmutation l' hchange
    cases write with
    | done =>
      refine ⟨l', ?_, hedits.mono fun _ _ h ↦ ⟨h, rfl⟩⟩
      simp only [mutateIssueComments, hchange]
      exact if_pos (hedits.parses hl hmay)
    | refused => exact ⟨l, by simp only [mutateIssueComments, hchange], .same⟩
    | torn => exact absurd rfl htorn

end Mutations

/-! ## One step -/

/-- What a call waits for is about runs that were started, and what it is going to record passes
the schema. -/
def CommentJob.Sound (runs : List ReplyRun) : CommentJob → Prop
  | .appending _ (.close run) => run ∈ runs
  | .noting owner _ _ => owner ≠ some ""
  | .asking owner _ => owner ≠ some ""
  | .asked owner run => owner ≠ some "" ∧ run ∈ runs
  | .settling _ delivery => delivery.parses = true ∧ delivery.closes = none
  | .crediting run => run ∈ runs
  | .closing run delivery =>
    run ∈ runs ∧ delivery.parses = true ∧ delivery.closes = some run.taskId
  | _ => True

def CommentJob.Delivers (job : CommentJob) (answer : CommentAnswer) (comment : IssueComment)
    (delivery : Delivery) : Prop :=
  match job with
  | .settling _ recorded => delivery = recorded
  | .closing _ recorded => delivery = recorded ∧ answer = .wrote .done
  | .progressing _ _ => Progresses comment delivery
  | _ => False

/-- The answer leaves a sidecar that can be read: no write is torn, and an exception that is going
to be recorded has a text. -/
def CommentJob.survives (job : CommentJob) (answer : CommentAnswer) : Bool :=
  match job, answer with
  | _, .appended _ _ _ write => decide (write ≠ .torn)
  | _, .wrote write => decide (write ≠ .torn)
  | .asking _ _, .thrown message => decide (message ≠ "")
  | .asked _ _, .thrown message => decide (message ≠ "")
  | _, _ => true

def ReplyRun.Valid (run : ReplyRun) : Prop := run.taskId ≠ "" ∧ run.resumeId ≠ ""

def Comments.taskIds (s : Comments) : List String := s.runs.map ReplyRun.taskId

/-- **What one step does** to the comments `l`, the runs and the call that takes it. -/
structure Turn (s s' : Comments) (job job' : CommentJob) (answer : CommentAnswer)
    (l l' : List IssueComment) : Prop where
  sidecar : s'.sidecar = some l'
  edits : Edits (job.Delivers answer) l l'
  runs : s'.runs = s.runs ∨ ∃ run, run.Valid ∧ run.taskId ∉ s.taskIds ∧ s'.runs = s.runs ++ [run]
  sound : job'.Sound s'.runs
  pends : ∀ taskId, job'.pends = some taskId →
    job.pends = some taskId ∨ taskId ∉ s.taskIds ∧ taskId ∈ s'.taskIds

section Turn

variable {s s' : Comments} {job job' : CommentJob} {answer : CommentAnswer}
  {l : List IssueComment}

theorem turn_same (hs : s.sidecar = some l) (hsound : job'.Sound s.runs)
    (hpends : ∀ taskId, job'.pends = some taskId → job.pends = some taskId) :
    Turn s s job job' answer l l where
  sidecar := hs
  edits := .same
  runs := .inl rfl
  sound := hsound
  pends taskId h := .inl (hpends taskId h)

theorem nonEmpty_ne (text : Option String) : nonEmpty text ≠ some "" := by
  intro h
  obtain ⟨-, hne⟩ := Option.filter_eq_some_iff.mp h
  exact absurd rfl (of_decide_eq_true hne)

variable {owner : Option String}

theorem Follow.sound_job {follow : Follow} {draft : Draft} {runs : List ReplyRun} {id : CommentId}
    (h : (CommentJob.appending draft follow).Sound runs)
    (howner : owner ≠ some "") : (follow.job owner id).Sound runs := by
  cases follow with
  | nothing => trivial
  | dispatch => exact howner
  | close => exact h

theorem Follow.pends_job {follow : Follow} {id : CommentId} :
    (follow.job owner id).pends = none := by
  cases follow <;> rfl

theorem edits_append {draft : Draft} {draw : Nat} (comment : IssueComment)
    (hfresh : ¬ (draft.id = none ∧ l.any (·.id = .random draw)))
    (hid : comment.id = draft.id.getD (.random draw)) (hnone : comment.delivery = none)
    (hauthor : comment.author ≠ "") (hmarkdown : comment.markdown ≠ "") (l' : List IssueComment)
    (h : appendComment draft.id.isSome comment l = .write l') :
    Edits (fun _ _ ↦ False) l l' := by
  refine edits_appendComment (fun hdrawn hmem ↦ hfresh ?_) hnone ?_ h
  · have hdraft : draft.id = none :=
      Option.isNone_iff_eq_none.mp (Option.isSome_eq_false_iff.mp hdrawn)
    obtain ⟨old, hold, holdId⟩ := List.mem_map.mp hmem
    rw [hid, hdraft] at holdId
    exact ⟨hdraft, List.any_eq_true.mpr ⟨old, hold, decide_eq_true holdId⟩⟩
  · simp [IssueComment.parses, hauthor, hmarkdown, hnone]

theorem turn_append {draft : Draft} {follow : Follow} {draw now : Nat}
    {write : Write} (hs : s.sidecar = some l) (hl : l.all IssueComment.parses = true)
    (hfresh : ¬ (draft.id = none ∧ (s.sidecar.getD []).any (·.id = .random draw)))
    (hjob : (CommentJob.appending draft follow).Sound s.runs) (howner : owner ≠ some "")
    (htorn : write ≠ .torn) (h : s.append draft follow owner draw now write = (s', job')) :
    ∃ l', Turn s s' (.appending draft follow) job' answer l l' := by
  rw [hs, Option.getD_some] at hfresh
  rw [Comments.append] at h
  split_ifs at h with hempty
  · cases h
    exact ⟨l, turn_same hs trivial (by rintro _ ⟨⟩)⟩
  rw [not_or] at hempty
  obtain ⟨l', hl', hedits⟩ := edits_mutate hl htorn (fun _ _ _ ↦ False.elim)
    (edits_append ⟨draft.id.getD (.random draw), trimmed draft.author, now, trimmed draft.text,
      draft.replyTo, none, draft.via⟩ hfresh rfl rfl hempty.1 hempty.2)
  rw [hs] at h
  obtain ⟨rfl, rfl⟩ := Prod.mk.inj h
  refine ⟨l', hl', hedits.mono fun _ _ h ↦ h.1, .inl rfl, ?_, ?_⟩
  · split_ifs
    · exact Follow.sound_job hjob howner
    · trivial
  intro taskId hpends
  split_ifs at hpends
  · rw [Follow.pends_job] at hpends
    cases hpends
  · cases hpends

theorem turn_settle {mutation : List IssueComment → Change} {write : Write}
    {may : IssueComment → Delivery → Prop} (hs : s.sidecar = some l)
    (hl : l.all IssueComment.parses = true) (htorn : write ≠ .torn)
    (hmay : ∀ comment delivery, comment.parses = true → may comment delivery →
      delivery.parses = true)
    (hmutation : ∀ l', mutation l = .write l' → Edits may l l')
    (hjob : ∀ comment delivery, may comment delivery → write = .done →
      job.Delivers answer comment delivery)
    (h : s.settle mutation write = (s', job')) : ∃ l', Turn s s' job job' answer l l' := by
  obtain ⟨l', hl', hedits⟩ := edits_mutate hl htorn hmay hmutation
  rw [Comments.settle, hs] at h
  obtain ⟨rfl, rfl⟩ := Prod.mk.inj h
  exact ⟨l', hl', hedits.mono fun _ _ h ↦ hjob _ _ h.1 h.2, .inl rfl, trivial,
    by rintro _ ⟨⟩⟩

theorem dispatch_sound (id : CommentId) (caller : Caller)
    (runs : List ReplyRun) (howner : owner ≠ some "") :
    (dispatchIssueCommentReply owner id caller).Sound runs ∧
      (dispatchIssueCommentReply owner id caller).pends = none := by
  rw [dispatchIssueCommentReply]
  split_ifs
  · exact ⟨trivial, rfl⟩
  · exact ⟨trivial, rfl⟩
  · exact ⟨⟨by simp [Delivery.parses, howner], rfl⟩, rfl⟩
  · exact ⟨howner, rfl⟩

theorem nonEmpty_getD {text : Option String} {other : String} (h : other ≠ "") :
    (nonEmpty text).getD other ≠ "" := by
  cases htext : nonEmpty text with
  | none => exact h
  | some text' =>
    rintro rfl
    exact nonEmpty_ne text htext

theorem closing_sound {run : ReplyRun} {runs : List ReplyRun} {error : String} (hrun : run ∈ runs)
    (hvalid : run.Valid) (herror : error ≠ "") :
    (CommentJob.closing run (.failed (some run.resumeId) (some run.taskId) error)).Sound runs :=
  ⟨hrun, by simp [Delivery.parses, hvalid.1, hvalid.2, herror], rfl⟩

theorem record_sound {run : ReplyRun} {runs : List ReplyRun} {status : String}
    {assistantText error : Option String} (hrun : run ∈ runs) (hvalid : run.Valid) :
    (recordIssueCommentReply run status assistantText error).Sound runs ∧
      (recordIssueCommentReply run status assistantText error).pends = none := by
  rw [recordIssueCommentReply]
  split_ifs
  · exact ⟨hrun, rfl⟩
  · exact ⟨closing_sound hrun hvalid (nonEmpty_getD (by decide)), rfl⟩
  · exact ⟨closing_sound hrun hvalid (nonEmpty_getD (by simp)), rfl⟩

theorem turn_started {id : CommentId} {taskId resumeId : String}
    (hs : s.sidecar = some l) (howner : owner ≠ some "")
    (h : ¬ (taskId = "" ∨ resumeId = "" ∨ s.runs.any (·.taskId = taskId))) :
    Turn s { s with runs := s.runs ++ [⟨taskId, resumeId, id⟩] } (.asking owner id)
      (.asked owner ⟨taskId, resumeId, id⟩) answer l l := by
  rw [not_or, not_or] at h
  obtain ⟨htask, hresume, hfresh⟩ := h
  have hnew : taskId ∉ s.taskIds := by
    intro hmem
    obtain ⟨run, hrun, hid⟩ := List.mem_map.mp hmem
    exact hfresh (List.any_eq_true.mpr ⟨run, hrun, decide_eq_true hid⟩)
  refine ⟨hs, .same, .inr ⟨_, ⟨htask, hresume⟩, hnew, rfl⟩, ⟨howner, by simp⟩, ?_⟩
  rintro _ ⟨⟩
  exact .inr ⟨hnew, by simp [Comments.taskIds]⟩

theorem turn_resume {i : Nat} (hs : s.sidecar = some l) (hl : l.all IssueComment.parses = true)
    (hruns : ∀ run ∈ s.runs, run.Valid) (hjob : job.Sound s.runs)
    (hsurvives : job.survives answer = true)
    (h : commentProg.resume s i job answer = some (s', job')) :
    ∃ l', Turn s s' job job' answer l l' := by
  cases job with
  | appending draft follow =>
    cases answer with
    | appended owner draw now write =>
      cases owner with
      | none =>
        cases h
        exact ⟨l, turn_same hs trivial (by rintro _ ⟨⟩)⟩
      | some owner =>
        simp only [commentProg] at h
        split_ifs at h with hfresh
        exact turn_append hs hl hfresh hjob (nonEmpty_ne owner)
          (of_decide_eq_true hsurvives) (Option.some.inj h)
    | _ => cases h
  | noting owner id caller =>
    cases answer with
    | done =>
      cases h
      obtain ⟨hsound, hpends⟩ := dispatch_sound id caller s.runs hjob
      exact ⟨l, turn_same hs hsound fun _ h ↦ by rw [hpends] at h; cases h⟩
    | thrown =>
      cases h
      exact ⟨l, turn_same hs trivial (by rintro _ ⟨⟩)⟩
    | _ => cases h
  | asking owner id =>
    cases answer with
    | started taskId resumeId =>
      simp only [commentProg] at h
      split_ifs at h with hfresh
      cases h
      exact ⟨l, turn_started hs hjob hfresh⟩
    | unavailable attributed reason =>
      cases h
      refine ⟨l, turn_same hs ⟨?_, rfl⟩ (by rintro _ ⟨⟩)⟩
      have howner : owner.or (nonEmpty attributed) ≠ some "" := by
        cases owner with
        | none => exact nonEmpty_ne attributed
        | some owner => exact hjob
      simp [Delivery.parses, howner]
    | thrown message =>
      cases h
      have hmessage : message ≠ "" := of_decide_eq_true hsurvives
      have howner : owner ≠ some "" := hjob
      exact ⟨l, turn_same hs ⟨by simp [Delivery.parses, howner, hmessage], rfl⟩ (by rintro _ ⟨⟩)⟩
    | _ => cases h
  | asked owner run =>
    cases answer with
    | done =>
      cases h
      obtain ⟨htask, hresume⟩ := hruns run hjob.2
      exact ⟨l, turn_same hs ⟨by simp [Delivery.parses, htask, hresume], rfl⟩ fun _ h ↦ h⟩
    | thrown message =>
      cases h
      have hmessage : message ≠ "" := of_decide_eq_true hsurvives
      exact ⟨l, turn_same hs ⟨by simp [Delivery.parses, hjob.1, hmessage], rfl⟩ (by rintro _ ⟨⟩)⟩
    | _ => cases h
  | settling id delivery =>
    cases answer with
    | wrote write =>
      refine turn_settle hs hl (of_decide_eq_true hsurvives) ?_ (fun _ ↦ edits_updateDelivery)
        (fun _ _ hd _ ↦ hd) (Option.some.inj h)
      rintro _ _ - rfl
      exact hjob.1
    | _ => cases h
  | crediting run =>
    cases answer with
    | done =>
      cases h
      obtain ⟨htask, hresume⟩ := hruns run hjob
      exact ⟨l, turn_same hs ⟨hjob, by simp [Delivery.parses, htask, hresume], rfl⟩
        (by rintro _ ⟨⟩)⟩
    | thrown =>
      cases h
      exact ⟨l, turn_same hs trivial (by rintro _ ⟨⟩)⟩
    | _ => cases h
  | closing run delivery =>
    cases answer with
    | wrote write =>
      refine turn_settle hs hl (of_decide_eq_true hsurvives) ?_ (fun _ ↦ edits_updateDelivery)
        (fun _ _ hd hdone ↦ ⟨hd, hdone ▸ rfl⟩) (Option.some.inj h)
      rintro _ _ - rfl
      exact hjob.2.1
    | _ => cases h
  | progressing id progress =>
    cases answer with
    | wrote write =>
      exact turn_settle hs hl (of_decide_eq_true hsurvives) (fun _ _ ↦ Progresses.parses)
        (fun _ ↦ edits_updateProgress) (fun _ _ hd _ ↦ hd) (Option.some.inj h)
    | _ => cases h
  | ended => cases h

end Turn

/-! ## The runs -/

abbrev CommentWorld := World Comments CommentJob

/-- **The condition.**  A reply is not recorded while the dispatcher of its run has still to record
the pending delivery, and the sidecar survives. -/
def Orderly (W : CommentWorld) : Event CommentCall CommentAnswer → Prop
  | .call _ => True
  | .resume i answer =>
    ∀ job ∈ W.tasks[i]?, job.survives answer = true ∧
      (answer = .wrote .done → ∀ taskId ∈ job.records, ∀ other ∈ W.tasks,
        other.pends ≠ some taskId)

instance (W : CommentWorld) :
    (e : Event CommentCall CommentAnswer) → Decidable (Orderly W e)
  | .call _ => isTrue trivial
  | .resume i answer =>
    inferInstanceAs (Decidable (∀ job ∈ W.tasks[i]?, job.survives answer = true ∧
      (answer = .wrote .done → ∀ taskId ∈ job.records, ∀ other ∈ W.tasks,
        other.pends ≠ some taskId)))

/-- What holds in every state of a run. -/
structure Inv (W : CommentWorld) (l : List IssueComment) : Prop where
  sidecar : W.shared.sidecar = some l
  parses : l.all IssueComment.parses = true
  nodup : (l.map IssueComment.id).Nodup
  runs : ∀ run ∈ W.shared.runs, run.Valid
  sound : ∀ job ∈ W.tasks, job.Sound W.shared.runs
  pends : ∀ job ∈ W.tasks, ∀ taskId, job.pends = some taskId → taskId ∈ W.shared.taskIds
  /-- What is replied or failed for a run is not going to be pending for it. -/
  closed : ∀ (j : Nat) comment taskId, l[j]? = some comment → comment.Closed taskId →
    taskId ∈ W.shared.taskIds ∧ ∀ job ∈ W.tasks, job.pends ≠ some taskId

/-- A comment is not pending for a run any more, and is not going to be. -/
structure Final (W : CommentWorld) (l : List IssueComment) (j : Nat) (taskId : String) : Prop where
  run : taskId ∈ W.shared.taskIds
  pends : ∀ job ∈ W.tasks, job.pends ≠ some taskId
  rests : ∀ comment, l[j]? = some comment → ¬ comment.Awaits taskId

section Runs

variable {s s' : Comments} {job job' : CommentJob} {answer : CommentAnswer}
  {l l' : List IssueComment} {W W' : CommentWorld} {e : Event CommentCall CommentAnswer}

theorem CommentJob.Sound.mono {runs runs' : List ReplyRun} (h : job.Sound runs)
    (hle : ∀ run ∈ runs, run ∈ runs') : job.Sound runs' := by
  cases job with
  | appending draft follow =>
    cases follow with
    | close run => exact hle run h
    | nothing => trivial
    | dispatch => trivial
  | asked owner run => exact ⟨h.1, hle run h.2⟩
  | crediting run => exact hle run h
  | closing run delivery => exact ⟨hle run h.1, h.2⟩
  | noting => exact h
  | asking => exact h
  | settling => exact h
  | progressing => trivial
  | ended => trivial

theorem Turn.runs_mono (h : Turn s s' job job' answer l l') : ∀ run ∈ s.runs, run ∈ s'.runs := by
  rcases h.runs with hruns | ⟨run, -, -, hruns⟩
  · exact fun _ hmem ↦ hruns ▸ hmem
  · exact fun _ hmem ↦ hruns ▸ List.mem_append_left _ hmem

theorem Turn.taskIds_mono (h : Turn s s' job job' answer l l') :
    ∀ taskId ∈ s.taskIds, taskId ∈ s'.taskIds := by
  intro taskId hmem
  obtain ⟨run, hrun, rfl⟩ := List.mem_map.mp hmem
  exact List.mem_map_of_mem (h.runs_mono run hrun)

/-- Who is going to record a pending delivery after a step was going to before, or its run is
new. -/
theorem Turn.pends_mem {tasks : List CommentJob} {i : Nat}
    (h : Turn s s' job job' answer l l') (hi : tasks[i]? = some job) {other : CommentJob}
    (hother : other ∈ tasks.set i job') {taskId : String} (hpends : other.pends = some taskId) :
    (∃ before ∈ tasks, before.pends = some taskId) ∨ taskId ∉ s.taskIds ∧ taskId ∈ s'.taskIds := by
  rcases List.mem_or_eq_of_mem_set hother with hmem | rfl
  · exact .inl ⟨other, hmem, hpends⟩
  rcases h.pends taskId hpends with hbefore | hnew
  · exact .inl ⟨job, List.mem_of_getElem? hi, hbefore⟩
  · exact .inr hnew

variable {comment : IssueComment}

/-- A comment that is replied or failed after a step was so before, or the step records it. -/
theorem Turn.closed (h : Turn s s' job job' answer l l') (hjob : job.Sound s.runs) {j : Nat}
    {taskId : String} (hj : l'[j]? = some comment)
    (hclosed : comment.Closed taskId) :
    (∃ old, l[j]? = some old ∧ old.Closed taskId) ∨
      ∃ run delivery, job = .closing run delivery ∧ answer = .wrote .done ∧
        run.taskId = taskId := by
  rcases h.edits.cases_getElem hj with hj | hnone | ⟨old, delivery, hj, hmay, rfl⟩
  · exact .inl ⟨comment, hj, hclosed⟩
  · rw [IssueComment.Closed, hnone] at hclosed
    cases hclosed
  · have hcloses : delivery.closes = some taskId := hclosed
    cases job with
    | settling id recorded =>
      cases hmay
      rw [hjob.2] at hcloses
      cases hcloses
    | closing run recorded =>
      obtain ⟨rfl, hdone⟩ := hmay
      rw [hjob.2.2] at hcloses
      exact .inr ⟨run, delivery, rfl, hdone, Option.some.inj hcloses⟩
    | progressing id progress =>
      obtain ⟨target, other, before, after, -, rfl⟩ := hmay
      cases hcloses
    | _ => exact hmay.elim

theorem Turn.awaits (h : Turn s s' job job' answer l l') (hjob : job.Sound s.runs) {j : Nat}
    {taskId : String} (hj : l'[j]? = some comment)
    (hawaits : comment.Awaits taskId) :
    (∃ old, l[j]? = some old ∧ old.Awaits taskId) ∨ job.pends = some taskId := by
  rcases h.edits.cases_getElem hj with hj | hnone | ⟨old, delivery, hold, hmay, rfl⟩
  · exact .inl ⟨comment, hj, hawaits⟩
  · rw [IssueComment.Awaits, hnone] at hawaits
    cases hawaits
  · have hawait : delivery.awaits = some taskId := hawaits
    cases job with
    | settling id recorded =>
      cases hmay
      exact .inr hawait
    | closing run recorded =>
      obtain ⟨rfl, -⟩ := hmay
      cases delivery with
      | pending => cases hjob.2.2
      | replied => cases hawait
      | failed => cases hawait
    | progressing id progress =>
      obtain ⟨target, other, before, after, hpending, rfl⟩ := hmay
      refine .inl ⟨old, hold, ?_⟩
      rw [IssueComment.Awaits, hpending]
      exact hawait
    | _ => exact hmay.elim

theorem start_eq (s : Comments) (i : Nat) (call : CommentCall) (hruns : ∀ run ∈ s.runs, run.Valid) :
    (commentProg.start s i call).1 = s ∧ (commentProg.start s i call).2.Sound s.runs ∧
      (commentProg.start s i call).2.pends = none := by
  cases call with
  | append => exact ⟨rfl, trivial, rfl⟩
  | comment => exact ⟨rfl, trivial, rfl⟩
  | progress => exact ⟨rfl, trivial, rfl⟩
  | record run status assistantText error =>
    refine ⟨rfl, ?_⟩
    simp only [commentProg]
    split
    · exact ⟨trivial, rfl⟩
    next hrun =>
      have hmem := List.mem_of_getElem? hrun
      exact record_sound hmem (hruns _ hmem)

theorem Inv.cases_step (h : Inv W l) (hok : Orderly W e) (hstep : commentProg.step W e = some W') :
    (∃ job, W' = ⟨W.shared, W.tasks ++ [job]⟩ ∧ job.Sound W.shared.runs ∧ job.pends = none) ∨
      ∃ (i : Nat) (answer : CommentAnswer) (job job' : CommentJob) (l' : List IssueComment),
        e = .resume i answer ∧ W.tasks[i]? = some job ∧ W'.tasks = W.tasks.set i job' ∧
          Turn W.shared W'.shared job job' answer l l' := by
  cases e with
  | call call =>
    obtain ⟨hshared, hsound, hpends⟩ := start_eq W.shared W.tasks.length call h.runs
    rw [Prog.step_call hstep, hshared]
    exact .inl ⟨_, rfl, hsound, hpends⟩
  | resume i answer =>
    obtain ⟨job, s', job', hi, hresume, rfl⟩ := Prog.step_resume hstep
    obtain ⟨l', hturn⟩ := turn_resume h.sidecar h.parses h.runs
      (h.sound job (List.mem_of_getElem? hi)) (hok job hi).1 hresume
    exact .inr ⟨i, answer, job, job', l', rfl, hi, rfl, hturn⟩

theorem CommentJob.Delivers.parses {runs : List ReplyRun}
    {delivery : Delivery} (hjob : job.Sound runs) (hparses : comment.parses = true)
    (h : job.Delivers answer comment delivery) : delivery.parses = true := by
  cases job with
  | settling id recorded => exact h ▸ hjob.1
  | closing run recorded => exact h.1 ▸ hjob.2.1
  | progressing id progress => exact Progresses.parses hparses h
  | _ => exact h.elim

/-- Nobody is going to record a pending delivery for an old run that nobody was going to record
before. -/
theorem Turn.rests {tasks : List CommentJob} {i : Nat} {taskId : String}
    (h : Turn s s' job job' answer l l') (hi : tasks[i]? = some job) (hrun : taskId ∈ s.taskIds)
    (hpends : ∀ job ∈ tasks, job.pends ≠ some taskId) :
    ∀ other ∈ tasks.set i job', other.pends ≠ some taskId := by
  intro other hother hawaits
  rcases h.pends_mem hi hother hawaits with ⟨before, hbefore, hpending⟩ | ⟨hnew, -⟩
  · exact hpends before hbefore hpending
  · exact hnew hrun

theorem Inv.turn {i : Nat} (h : Inv W l) (hi : W.tasks[i]? = some job)
    (hok : Orderly W (.resume i answer)) (htasks : W'.tasks = W.tasks.set i job')
    (hturn : Turn W.shared W'.shared job job' answer l l') : Inv W' l' := by
  have hjob := h.sound job (List.mem_of_getElem? hi)
  refine ⟨hturn.sidecar, ?_, hturn.edits.nodup h.nodup, ?_, ?_, ?_, ?_⟩
  · exact hturn.edits.parses h.parses fun _ _ hparses hmay ↦ hmay.parses hjob hparses
  · intro run hmem
    rcases hturn.runs with hruns | ⟨new, hvalid, -, hruns⟩
    · exact h.runs run (hruns ▸ hmem)
    rw [hruns] at hmem
    rcases List.mem_append.mp hmem with hmem | hmem
    · exact h.runs run hmem
    · exact List.mem_singleton.mp hmem ▸ hvalid
  · intro other hother
    rw [htasks] at hother
    rcases List.mem_or_eq_of_mem_set hother with hmem | rfl
    · exact (h.sound other hmem).mono hturn.runs_mono
    · exact hturn.sound
  · intro other hother taskId hpends
    rw [htasks] at hother
    rcases hturn.pends_mem hi hother hpends with ⟨before, hbefore, hpending⟩ | ⟨-, hnew⟩
    · exact hturn.taskIds_mono taskId (h.pends before hbefore taskId hpending)
    · exact hnew
  · intro j comment taskId hj hclosed
    rw [htasks]
    rcases hturn.closed hjob hj hclosed with ⟨old, hold, holdClosed⟩ |
        ⟨run, delivery, hclosing, hdone, hrun⟩
    · obtain ⟨hknown, hpends⟩ := h.closed j old taskId hold holdClosed
      exact ⟨hturn.taskIds_mono taskId hknown, hturn.rests hi hknown hpends⟩
    have hknown : taskId ∈ W.shared.taskIds := by
      rw [hclosing] at hjob
      exact hrun ▸ List.mem_map_of_mem hjob.1
    refine ⟨hturn.taskIds_mono taskId hknown, hturn.rests hi hknown ?_⟩
    exact hrun ▸ (hok job hi).2 hdone run.taskId (hclosing ▸ rfl)

theorem Inv.call (h : Inv W l) (hsound : job.Sound W.shared.runs) (hpends : job.pends = none) :
    Inv ⟨W.shared, W.tasks ++ [job]⟩ l where
  sidecar := h.sidecar
  parses := h.parses
  nodup := h.nodup
  runs := h.runs
  sound := List.forall_mem_append.mpr ⟨h.sound, by simpa using hsound⟩
  pends := List.forall_mem_append.mpr ⟨h.pends, by simp [hpends]⟩
  closed j comment taskId hj hclosed :=
    ⟨(h.closed j comment taskId hj hclosed).1,
      List.forall_mem_append.mpr ⟨(h.closed j comment taskId hj hclosed).2, by simp [hpends]⟩⟩

/-- What one step, or a run, leaves as it was. -/
structure Onwards (W W' : CommentWorld) (l l' : List IssueComment) : Prop where
  core : l.map IssueComment.core <+: l'.map IssueComment.core
  final : ∀ (j : Nat) taskId, Final W l j taskId → Final W' l' j taskId

theorem Inv.step (h : Inv W l) (hok : Orderly W e) (hstep : commentProg.step W e = some W') :
    ∃ l', Inv W' l' ∧ Onwards W W' l l' := by
  rcases h.cases_step hok hstep with ⟨job, rfl, hsound, hpends⟩ |
      ⟨i, answer, job, job', l', rfl, hi, htasks, hturn⟩
  · refine ⟨l, h.call hsound hpends, List.prefix_rfl, fun j taskId hfinal ↦ ?_⟩
    exact ⟨hfinal.run, List.forall_mem_append.mpr ⟨hfinal.pends, by simp [hpends]⟩, hfinal.rests⟩
  refine ⟨l', h.turn hi hok htasks hturn, hturn.edits.core, fun j taskId hfinal ↦ ?_⟩
  refine ⟨hturn.taskIds_mono taskId hfinal.run, ?_, fun comment hj hawaits ↦ ?_⟩
  · exact htasks ▸ hturn.rests hi hfinal.run hfinal.pends
  rcases hturn.awaits (h.sound job (List.mem_of_getElem? hi)) hj hawaits with
    ⟨old, hold, holdAwaits⟩ | hpends
  · exact hfinal.rests old hold holdAwaits
  · exact hfinal.pends job (List.mem_of_getElem? hi) hpends

theorem inv_nil : Inv ⟨{}, []⟩ [] where
  sidecar := rfl
  parses := rfl
  nodup := .nil
  runs _ hmem := by cases hmem
  sound _ hmem := by cases hmem
  pends _ hmem := by cases hmem
  closed j _ _ hj := by cases hj

theorem Inv.run (h : Inv W l) (hrun : Reach commentProg.step Orderly W W') :
    ∃ l', Inv W' l' ∧ Onwards W W' l l' := by
  induction hrun with
  | refl => exact ⟨l, h, List.prefix_rfl, fun _ _ hfinal ↦ hfinal⟩
  | tail _ hok hstep ih =>
    obtain ⟨l₁, h₁, honwards₁⟩ := ih
    obtain ⟨l₂, h₂, honwards₂⟩ := h₁.step hok hstep
    exact ⟨l₂, h₂, honwards₁.core.trans honwards₂.core,
      fun j taskId hfinal ↦ honwards₂.final j taskId (honwards₁.final j taskId hfinal)⟩

/-- A comment that is replied or failed for a run stays so, or goes on to another run. -/
theorem Inv.final (h : Inv W l) {j : Nat} {taskId : String}
    (hj : l[j]? = some comment) (hclosed : comment.Closed taskId) : Final W l j taskId := by
  obtain ⟨hrun, hpends⟩ := h.closed j comment taskId hj hclosed
  refine ⟨hrun, hpends, fun comment' hj' hawaits ↦ ?_⟩
  rw [hj] at hj'
  cases hj'
  rw [IssueComment.Closed, Option.bind_eq_some_iff] at hclosed
  rw [IssueComment.Awaits, Option.bind_eq_some_iff] at hawaits
  obtain ⟨delivery, hdelivery, hcloses⟩ := hclosed
  obtain ⟨delivery', hdelivery', hawaits⟩ := hawaits
  rw [hdelivery] at hdelivery'
  cases hdelivery'
  cases delivery with
  | pending => cases hcloses
  | replied => cases hawaits
  | failed => cases hawaits

theorem progress_keeps {id : CommentId} {progress : TurnProgress} {write : Write}
    (hl : l.all IssueComment.parses = true) (htorn : write ≠ .torn) :
    ∃ l', (mutateIssueComments (some l) (updateProgress id progress) write).1 = some l' ∧
      ∀ (j : Nat) comment, l[j]? = some comment →
        (∀ target taskId before, comment.delivery ≠ some (.pending target taskId before)) →
        l'[j]? = some comment := by
  have hprogress : ∀ l', updateProgress id progress l = .write l' → Edits Progresses l l' :=
    fun _ ↦ edits_updateProgress
  obtain ⟨l', hl', hedits⟩ := edits_mutate hl htorn (fun _ _ ↦ Progresses.parses) hprogress
  refine ⟨l', hl', fun j comment hj hrests ↦ ?_⟩
  cases hedits with
  | same => exact hj
  | append => exact (List.getElem?_append_left (List.getElem?_eq_some_iff.mp hj).1).trans hj
  | @deliver i old delivery hi hmay =>
    obtain ⟨⟨target, taskId, before, after, hold, -⟩, -⟩ := hmay
    have hne : i ≠ j := by
      rintro rfl
      rw [hj] at hi
      cases hi
      exact hrests target taskId before hold
    rw [List.getElem?_set_ne hne, hj]

end Runs

def dispatched : List (Event CommentCall CommentAnswer) :=
  [.call (.comment ⟨"human", "Why?", none, none, none⟩ {}),
    .resume 0 (.appended (some (some "alice")) 0 1 .done), .resume 0 .done,
    .resume 0 (.started "task" "alice")]

def pendingRecorded : List (Event CommentCall CommentAnswer) :=
  [.resume 0 .done, .resume 0 (.wrote .done)]

def replyRecorded : List (Event CommentCall CommentAnswer) :=
  [.call (.record 0 "done" (some "Because.") none),
    .resume 1 (.appended (some (some "alice")) 1 2 .done), .resume 1 .done,
    .resume 1 (.wrote .done)]

def commentsAfter (events : List (Event CommentCall CommentAnswer)) : CommentWorld :=
  after commentProg.step ⟨{}, []⟩ events

def question (delivery : Delivery) : IssueComment :=
  ⟨.random 0, "human", 1, "Why?", none, some delivery, none⟩

def answered : IssueComment :=
  ⟨.reply "task", "@alice", 2, "Because.", some (.random 0), none, none⟩

def repliedDelivery : Delivery := .replied "alice" "task" (.reply "task")

end OpenAlice.Workspaces.Issues
