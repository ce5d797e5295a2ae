import OpenAlice.Workspaces.Issues.PhoneDesk

/-!
# An owner's messages reach the desk once, and in order

A poll moves messages: from the queue to its groups, from a group to a comment or to what is going
to be given back, and from there to the front of the queue.  Within a connector they keep their
order (`SameOrder`), so that the comments, what the poll holds and the queue are together what was
accepted.

What a poll holds when it throws is gone, and so is a group that it skips.  It does not matter
whose failure it was: the provenance of one connector's comment takes the messages of all others
with it.  `Clear` leaves these steps out; the claim is false of the other runs (`returned_lost`).
-/

namespace OpenAlice.Workspaces.Issues

open OpenAlice.Run OpenAlice.Data Scheduling

/-! ## What is said of a run -/

def Poll.held : Poll → List InboundOwnerMessage
  | .idle | .draining | .returned => []
  | .transit messages => messages
  | .looking group rest leftover => leftover ++ (group.2 ++ ungroup rest)
  | .rechecking group rest leftover => leftover ++ (group.2 ++ ungroup rest)
  | .appending _ group rest leftover => leftover ++ (group.2 ++ ungroup rest)
  | .crediting rest leftover => leftover ++ ungroup rest
  | .dispatching rest leftover => leftover ++ ungroup rest
  | .settling rest leftover => leftover ++ ungroup rest
  | .projecting rest leftover => leftover ++ ungroup rest
  | .returning leftover => leftover

def PhoneDesk.outstanding (s : PhoneDesk) : List InboundOwnerMessage := s.poll.held ++ s.inbound

def PhoneDesk.told (s : PhoneDesk) : List InboundOwnerMessage :=
  s.comments.flatMap DeskComment.messages

abbrev SameMessages := SameOrder InboundOwnerMessage.connectorId

def InboundOwnerMessage.Tellable (message : InboundOwnerMessage) : Prop :=
  builtinConnectorHasCapability message.connectorId .desk = true ∧ trim message.text ≠ []

instance (message : InboundOwnerMessage) : Decidable message.Tellable :=
  inferInstanceAs (Decidable (_ ∧ _))

/-- **The condition.**  The messages accepted are for a desk, are no blanks, and never more than the
queue holds; nothing throws while the poll holds messages; and a desk that was found is there until
its comment is appended. -/
def Clear (s : PhoneDesk) : PhoneEvent → Prop
  | .accept connectorId userId chatId text =>
    ∀ message ∈ parseInbound connectorId userId chatId text,
      message.Tellable ∧ s.outstanding.length < maxInboundOwnerMessages
  | .thrown => s.poll.held = []
  | .rechecked desk workspace => desk.isSome = true ∧ workspace = true
  | .appended ok => ok = true
  | _ => True

instance (s : PhoneDesk) : (e : PhoneEvent) → Decidable (Clear s e)
  | .accept connectorId userId chatId text =>
    inferInstanceAs (Decidable (∀ message ∈ parseInbound connectorId userId chatId text,
      message.Tellable ∧ s.outstanding.length < maxInboundOwnerMessages))
  | .thrown => inferInstanceAs (Decidable (s.poll.held = []))
  | .rechecked desk workspace =>
    inferInstanceAs (Decidable (desk.isSome = true ∧ workspace = true))
  | .appended ok => inferInstanceAs (Decidable (ok = true))
  | .tick | .stop | .answered | .looked _ _ | .dispatched _ => isTrue trivial

/-! ## The text of a comment -/

section Stack

variable {text : Text} {texts : List Text}

theorem intercalate_ne_nil {a b : Text} {rest : List Text} :
    List.intercalate ['\n'] (a :: b :: rest) ≠ [] := by
  simp [List.intercalate]

theorem formatTelegramInboundStack_ne (htexts : texts ≠ [])
    (h : ∀ text ∈ texts, trim text ≠ []) : formatTelegramInboundStack texts ≠ [] := by
  have hparts : (texts.map trim).filter (· ≠ []) = texts.map trim := by
    refine List.filter_eq_self.mpr fun part hpart ↦ ?_
    obtain ⟨text, htext, rfl⟩ := List.mem_map.mp hpart
    exact decide_eq_true (h text htext)
  rw [formatTelegramInboundStack, hparts]
  cases texts with
  | nil => exact absurd rfl htexts
  | cons text rest =>
    cases rest with
    | nil => exact h text List.mem_cons_self
    | cons text' rest => exact intercalate_ne_nil

end Stack

/-! ## The invariant -/

structure Split (groups : List Group) (leftover : List InboundOwnerMessage) : Prop where
  grouped : Grouped InboundOwnerMessage.connectorId groups
  apart : ∀ message ∈ leftover, ∀ group ∈ groups, message.connectorId ≠ group.1

def Poll.Sound : Poll → Prop
  | .looking group rest leftover => Split (group :: rest) leftover
  | .rechecking group rest leftover => Split (group :: rest) leftover
  | .appending _ group rest leftover => Split (group :: rest) leftover
  | .crediting rest leftover => Split rest leftover
  | .dispatching rest leftover => Split rest leftover
  | .settling rest leftover => Split rest leftover
  | .projecting rest leftover => Split rest leftover
  | _ => True

/-- What holds in every state of a run. -/
structure PhoneInv (s : PhoneDesk) : Prop where
  sound : s.poll.Sound
  few : s.outstanding.length ≤ maxInboundOwnerMessages
  tellable : ∀ message ∈ s.told ++ s.outstanding, message.Tellable
  kept : SameMessages (s.told ++ s.outstanding) s.accepted

section Groups

variable {group : Group} {rest : List Group} {leftover : List InboundOwnerMessage}
  {message : InboundOwnerMessage}

theorem Split.tail (h : Split (group :: rest) leftover) : Split rest leftover where
  grouped := h.grouped.tail
  apart message hmem g hg := h.apart message hmem g (List.mem_cons_of_mem _ hg)

theorem Split.leave (h : Split (group :: rest) leftover) : Split rest (leftover ++ group.2) where
  grouped := h.grouped.tail
  apart := by
    intro message hmem g hg heq
    rcases List.mem_append.mp hmem with hmem | hmem
    · exact h.apart message hmem g (List.mem_cons_of_mem _ hg) heq
    · have hkey := h.grouped.key group List.mem_cons_self message hmem
      exact (List.nodup_cons.mp h.grouped.nodup).1 (hkey ▸ heq ▸ List.mem_map_of_mem hg)

theorem pullGroups_spec (h : Split rest leftover)
    (htell : ∀ message ∈ ungroup rest, message.Tellable) :
    (pullGroups leftover rest).Sound ∧
      (pullGroups leftover rest).held = leftover ++ ungroup rest := by
  cases rest with
  | nil =>
    rw [pullGroups]
    split_ifs with hnil
    · exact ⟨trivial, by rw [hnil]; rfl⟩
    · exact ⟨trivial, (List.append_nil _).symm⟩
  | cons group rest =>
    obtain ⟨message, hmessage⟩ := List.exists_mem_of_ne_nil _
      (h.grouped.ne_nil group List.mem_cons_self)
    have hdesk : builtinConnectorHasCapability group.1 .desk = true := by
      rw [← h.grouped.key group List.mem_cons_self message hmessage]
      exact (htell message (ungroup_cons ▸ List.mem_append_left _ hmessage)).1
    rw [pullGroups, if_pos hdesk]
    exact ⟨h, by rw [ungroup_cons]; rfl⟩

theorem ingestStarts_group (h : Split (group :: rest) leftover)
    (htell : ∀ message ∈ group.2, message.Tellable) : ingestStarts group.2 = true := by
  have hkey := h.grouped.key group List.mem_cons_self
  have hne := h.grouped.ne_nil group List.mem_cons_self
  cases hgroup : group.2 with
  | nil => exact absurd hgroup hne
  | cons message messages =>
    rw [hgroup] at htell hkey
    have hmessage : message ∈ message :: messages := List.mem_cons_self
    have hsame : (message :: messages).any (·.connectorId ≠ message.connectorId) = false := by
      refine List.any_eq_false.mpr fun other hother hne ↦ ?_
      exact of_decide_eq_true hne ((hkey other hother).trans (hkey message hmessage).symm)
    have htext : formatTelegramInboundStack
        ((message :: messages).map InboundOwnerMessage.text) ≠ [] := by
      refine formatTelegramInboundStack_ne (by simp) fun text htext ↦ ?_
      obtain ⟨other, hother, rfl⟩ := List.mem_map.mp htext
      exact (htell other hother).2
    rw [ingestStarts, hsame, (htell message hmessage).1]
    exact decide_eq_true htext

end Groups

/-! ## One step -/

section Step

variable {s s' : PhoneDesk} {group : Group} {rest : List Group}
  {leftover : List InboundOwnerMessage}

theorem PhoneInv.move (h : PhoneInv s) (hcomments : s'.comments = s.comments)
    (haccepted : s'.accepted = s.accepted) (hsound : s'.poll.Sound)
    (hmoved : SameMessages s'.outstanding s.outstanding) : PhoneInv s' := by
  have htold : s'.told = s.told := by rw [PhoneDesk.told, PhoneDesk.told, hcomments]
  have hall : SameMessages (s'.told ++ s'.outstanding) (s.told ++ s.outstanding) :=
    htold ▸ (SameOrder.refl _).append hmoved
  refine ⟨hsound, ?_, fun message hmem ↦ ?_, ?_⟩
  · exact hmoved.perm.length_eq ▸ h.few
  · exact h.tellable message (hall.mem_iff.mp hmem)
  · exact haccepted ▸ hall.trans h.kept

theorem PhoneInv.goOn (h : PhoneInv s) {poll : Poll} (hsound : poll.Sound)
    (hheld : SameMessages poll.held s.poll.held) : PhoneInv { s with poll } :=
  h.move rfl rfl hsound (hheld.append (.refl _))

theorem PhoneInv.pull (h : PhoneInv s) (hsplit : Split rest leftover)
    (hheld : s.poll.held = leftover ++ ungroup rest) :
    PhoneInv { s with poll := pullGroups leftover rest } := by
  obtain ⟨hsound, hpull⟩ := pullGroups_spec hsplit fun message hmem ↦ by
    refine h.tellable message (List.mem_append_right _ (List.mem_append_left _ ?_))
    exact hheld ▸ List.mem_append_right _ hmem
  exact h.goOn hsound (hpull.trans hheld.symm ▸ .refl _)

theorem PhoneInv.accept (h : PhoneInv s) {message : InboundOwnerMessage}
    (htell : message.Tellable) (hfew : s.outstanding.length < maxInboundOwnerMessages) :
    PhoneInv { s with
      inbound := acceptInbound s.inbound message, accepted := s.accepted ++ [message] } := by
  have hroom : s.inbound.length + 1 - maxInboundOwnerMessages = 0 := by
    rw [PhoneDesk.outstanding, List.length_append] at hfew
    omega
  have hinbound : acceptInbound s.inbound message = s.inbound ++ [message] := by
    rw [acceptInbound, hroom, List.drop_zero]
  have hall : s.told ++ (s.poll.held ++ (s.inbound ++ [message])) =
      (s.told ++ s.outstanding) ++ [message] := by
    rw [PhoneDesk.outstanding, List.append_assoc, List.append_assoc]
  rw [hinbound]
  refine ⟨h.sound, ?_, fun other hmem ↦ ?_, ?_⟩
  · change (s.poll.held ++ (s.inbound ++ [message])).length ≤ _
    rw [← List.append_assoc, List.length_append]
    exact hfew
  · rcases List.mem_append.mp (hall ▸ hmem) with hmem | hmem
    · exact h.tellable other hmem
    · exact List.mem_singleton.mp hmem ▸ htell
  · exact hall ▸ h.kept.append (.refl [message])

theorem PhoneInv.append (h : PhoneInv s) (desk : ConnectorDesk)
    (hsplit : Split (group :: rest) leftover)
    (hheld : s.poll.held = leftover ++ (group.2 ++ ungroup rest)) :
    PhoneInv { s with
      comments := s.comments ++ [deskComment desk group], poll := .crediting rest leftover } := by
  -- The group overtakes what is given back, which is of other connectors.
  have hgroup : SameMessages (group.2 ++ (leftover ++ ungroup rest)) s.poll.held := by
    rw [hheld, ← List.append_assoc, ← List.append_assoc]
    refine (SameOrder.swap fun a ha b hb heq ↦ ?_).append (.refl _)
    exact hsplit.apart b hb group List.mem_cons_self
      (heq.symm.trans (hsplit.grouped.key group List.mem_cons_self a ha))
  have hall : SameMessages ((s.told ++ group.2) ++ ((leftover ++ ungroup rest) ++ s.inbound))
      (s.told ++ s.outstanding) := by
    rw [PhoneDesk.outstanding, List.append_assoc, ← List.append_assoc group.2]
    exact (SameOrder.refl _).append (hgroup.append (.refl _))
  have htold : PhoneDesk.told { s with
      comments := s.comments ++ [deskComment desk group], poll := .crediting rest leftover } =
      s.told ++ group.2 := by
    rw [PhoneDesk.told, PhoneDesk.told, List.flatMap_append, List.flatMap_singleton]
    rfl
  refine ⟨hsplit.tail, ?_, fun message hmem ↦ ?_, ?_⟩
  · have hlength := hgroup.perm.length_eq
    have hfew := h.few
    rw [PhoneDesk.outstanding, List.length_append] at hfew ⊢
    rw [List.length_append] at hlength
    exact le_trans (Nat.add_le_add_right (by rw [← hlength]; exact Nat.le_add_left _ _) _) hfew
  · rw [htold] at hmem
    exact h.tellable message (hall.mem_iff.mp hmem)
  · rw [htold]
    exact hall.trans h.kept

theorem PhoneInv.answered (h : PhoneInv s) (hstep : s.step .answered = some s') :
    PhoneInv s' := by
  have hsound := h.sound
  cases hpoll : s.poll with
  | draining =>
    simp only [PhoneDesk.step, hpoll] at hstep
    cases hstep
    refine h.move rfl rfl trivial ?_
    rw [PhoneDesk.outstanding, PhoneDesk.outstanding, hpoll]
    exact (List.take_append_drop ..).symm ▸ .refl _
  | transit messages =>
    simp only [PhoneDesk.step, hpoll] at hstep
    cases hstep
    obtain ⟨hgrouped, horder⟩ := groupsOf_spec InboundOwnerMessage.connectorId messages
    have hsplit : Split (groupsOf InboundOwnerMessage.connectorId messages) [] :=
      ⟨hgrouped, by simp⟩
    obtain ⟨hsound, hheld⟩ := pullGroups_spec hsplit fun message hmem ↦ by
      refine h.tellable message (List.mem_append_right _ (List.mem_append_left _ ?_))
      exact hpoll ▸ horder.mem_iff.mp hmem
    refine h.goOn hsound ?_
    rw [hheld, hpoll]
    exact horder
  | crediting rest leftover =>
    simp only [PhoneDesk.step, hpoll] at hstep
    cases hstep
    exact h.goOn (hpoll ▸ hsound :) (hpoll ▸ .refl _)
  | settling rest leftover =>
    simp only [PhoneDesk.step, hpoll] at hstep
    cases hstep
    exact h.goOn (hpoll ▸ hsound :) (hpoll ▸ .refl _)
  | projecting rest leftover =>
    simp only [PhoneDesk.step, hpoll] at hstep
    cases hstep
    exact h.pull (hpoll ▸ hsound :) (hpoll ▸ rfl)
  | returning leftover =>
    simp only [PhoneDesk.step, hpoll] at hstep
    cases hstep
    refine h.move rfl rfl trivial ?_
    have hfew : (leftover ++ s.inbound).length ≤ maxInboundOwnerMessages := by
      have hfew := h.few
      rwa [PhoneDesk.outstanding, hpoll] at hfew
    rw [PhoneDesk.outstanding, PhoneDesk.outstanding, hpoll, returnInbound,
      List.take_of_length_le hfew]
    exact .refl _
  | returned =>
    simp only [PhoneDesk.step, hpoll] at hstep
    cases hstep
    exact h.goOn trivial (hpoll ▸ .refl _)
  | _ =>
    simp only [PhoneDesk.step, hpoll] at hstep
    cases hstep

theorem PhoneInv.looked (h : PhoneInv s) {desk : Option ConnectorDesk} {generating : Bool}
    (hstep : s.step (.looked desk generating) = some s') : PhoneInv s' := by
  have hsound := h.sound
  cases hpoll : s.poll with
  | looking group rest leftover =>
    rw [hpoll] at hsound
    simp only [PhoneDesk.step, hpoll] at hstep
    have htell : ∀ message ∈ group.2, message.Tellable := fun message hmem ↦ by
      refine h.tellable message (List.mem_append_right _ (List.mem_append_left _ ?_))
      exact hpoll ▸ List.mem_append_right _ (List.mem_append_left _ hmem)
    rw [if_pos (ingestStarts_group hsound htell)] at hstep
    split_ifs at hstep
    · cases hstep
      exact h.pull (Split.leave hsound) (hpoll ▸ (List.append_assoc ..).symm)
    · cases hstep
      exact h.goOn hsound (hpoll ▸ .refl _)
  | _ =>
    simp only [PhoneDesk.step, hpoll] at hstep
    cases hstep

theorem PhoneInv.rechecked (h : PhoneInv s) {desk : ConnectorDesk}
    (hstep : s.step (.rechecked (some desk) true) = some s') : PhoneInv s' := by
  have hsound := h.sound
  cases hpoll : s.poll with
  | rechecking group rest leftover =>
    simp only [PhoneDesk.step, hpoll] at hstep
    cases hstep
    exact h.goOn (hpoll ▸ hsound :) (hpoll ▸ .refl _)
  | _ =>
    simp only [PhoneDesk.step, hpoll] at hstep
    cases hstep

theorem PhoneInv.appended (h : PhoneInv s) (hstep : s.step (.appended true) = some s') :
    PhoneInv s' := by
  have hsound := h.sound
  cases hpoll : s.poll with
  | appending desk group rest leftover =>
    simp only [PhoneDesk.step, hpoll] at hstep
    cases hstep
    exact h.append desk (hpoll ▸ hsound :) (hpoll ▸ rfl)
  | _ =>
    simp only [PhoneDesk.step, hpoll] at hstep
    cases hstep

theorem PhoneInv.dispatched (h : PhoneInv s) {requested : Bool}
    (hstep : s.step (.dispatched requested) = some s') : PhoneInv s' := by
  have hsound := h.sound
  cases hpoll : s.poll with
  | dispatching rest leftover =>
    simp only [PhoneDesk.step, hpoll] at hstep
    cases hstep
    cases requested with
    | true => exact h.goOn (hpoll ▸ hsound :) (hpoll ▸ .refl _)
    | false => exact h.goOn (hpoll ▸ hsound :) (hpoll ▸ .refl _)
  | _ =>
    simp only [PhoneDesk.step, hpoll] at hstep
    cases hstep

theorem PhoneInv.step (h : PhoneInv s) {e : PhoneEvent} (hclear : Clear s e)
    (hstep : s.step e = some s') : PhoneInv s' := by
  cases e with
  | accept connectorId userId chatId text =>
    cases hparse : parseInbound connectorId userId chatId text with
    | none =>
      simp only [PhoneDesk.step, hparse] at hstep
      cases hstep
      exact h
    | some message =>
      simp only [PhoneDesk.step, hparse] at hstep
      cases hstep
      obtain ⟨htell, hfew⟩ := hclear message hparse
      exact h.accept htell hfew
  | tick =>
    obtain rfl := Option.some.inj hstep
    split_ifs with hrests
    · exact h
    · rw [not_or, not_not] at hrests
      exact h.goOn trivial (hrests.2 ▸ .refl _)
  | stop =>
    cases hstep
    exact h.move rfl rfl h.sound (.refl _)
  | thrown =>
    rw [PhoneDesk.step] at hstep
    split_ifs at hstep
    cases hstep
    have hheld : s.poll.held = [] := hclear
    exact h.goOn trivial (hheld ▸ .refl _)
  | answered => exact h.answered hstep
  | looked desk generating => exact h.looked hstep
  | rechecked desk workspace =>
    obtain ⟨hdesk, rfl⟩ := hclear
    obtain ⟨desk, rfl⟩ := Option.isSome_iff_exists.mp hdesk
    exact h.rechecked hstep
  | appended ok =>
    obtain rfl : ok = true := hclear
    exact h.appended hstep
  | dispatched requested => exact h.dispatched hstep

end Step

theorem phoneInv_empty : PhoneInv {} where
  sound := trivial
  few := Nat.zero_le _
  tellable _ hmem := by cases hmem
  kept := .refl _

/-- **An owner's messages reach the desk once, and in order**, in every clear run: for each
connector, what is in the comments, what the poll holds and what is in the queue are together the
messages that were accepted, in their order; and no message in a comment is a blank, which the
comment would not show. -/
theorem messages_once_in_order {s : PhoneDesk} (h : Reach PhoneDesk.step Clear {} s) :
    (∀ connectorId, (s.comments.flatMap DeskComment.messages ++ s.poll.held ++ s.inbound).filter
        (·.connectorId = connectorId) =
      s.accepted.filter (·.connectorId = connectorId)) ∧
      ∀ comment ∈ s.comments, ∀ message ∈ comment.messages, trim message.text ≠ [] := by
  have hinv := h.invariant phoneInv_empty fun _ _ _ hinv hclear hstep ↦ hinv.step hclear hstep
  refine ⟨fun connectorId ↦ ?_, fun comment hcomment message hmem ↦ ?_⟩
  · rw [List.append_assoc]
    exact hinv.kept connectorId
  · refine (hinv.tellable message (List.mem_append_left _ ?_)).2
    exact List.mem_flatMap.mpr ⟨comment, hcomment, hmem⟩


/-! ## Two runs -/

def drainedOnce : List PhoneEvent :=
  [.accept "telegram" "42" none "Hold this".toList, .tick, .answered, .answered]

/-- The message is given back, since no desk is live, and becomes a comment when one is. -/
def heldAndTold : List PhoneEvent :=
  drainedOnce ++ [.looked none false, .answered, .answered, .tick, .answered, .answered,
    .looked (some ⟨"ws", "desk"⟩) false, .rechecked (some ⟨"ws", "desk"⟩) true, .appended true]

/-- A message that was given back is told once. -/
theorem messages_once_in_order_told :
    ∃ s, exec PhoneDesk.step {} heldAndTold = some s ∧ s.accepted.length = 1 ∧
      (s.comments.flatMap DeskComment.messages ++ s.poll.held ++ s.inbound).filter
        (·.connectorId = "telegram") = s.accepted.filter (·.connectorId = "telegram") := by
  have hsome : (exec PhoneDesk.step {} heldAndTold).isSome = true := by decide +kernel
  obtain ⟨s, hs⟩ := Option.isSome_iff_exists.mp hsome
  have hclear : ExecOk PhoneDesk.step Clear {} heldAndTold := by decide +kernel
  have hone : (exec PhoneDesk.step {} heldAndTold).map (·.accepted.length) = some 1 := by
    decide +kernel
  rw [hs] at hone
  exact ⟨s, hs, Option.some.inj hone, (messages_once_in_order (.of_execOk hs hclear)).1 "telegram"⟩

/-- The messages accepted are for a desk, and never more than the queue holds. -/
def Bounded (s : PhoneDesk) : PhoneEvent → Prop
  | .accept connectorId _ _ _ => builtinConnectorHasCapability connectorId .desk = true ∧
    s.outstanding.length < maxInboundOwnerMessages
  | _ => True

instance (s : PhoneDesk) : (e : PhoneEvent) → Decidable (Bounded s e)
  | .accept connectorId _ _ _ =>
    inferInstanceAs (Decidable (builtinConnectorHasCapability connectorId .desk = true ∧
      s.outstanding.length < maxInboundOwnerMessages))
  | .tick | .stop | .answered | .thrown | .looked _ _ | .rechecked _ _ | .appended _
  | .dispatched _ => isTrue trivial

/-- A run in which the service does not take a message back. -/
def notReturned : List PhoneEvent := drainedOnce ++ [.looked none false, .thrown]

/-- **A message that cannot be given back** is lost. -/
theorem returned_lost : ¬ ∀ s, Reach PhoneDesk.step Bounded {} s → ∀ connectorId,
      (s.comments.flatMap DeskComment.messages ++ s.poll.held ++ s.inbound).filter
        (·.connectorId = connectorId) = s.accepted.filter (·.connectorId = connectorId) := by
  intro h
  have hcounts : (exec PhoneDesk.step {} notReturned).map (fun s ↦
      (((s.comments.flatMap DeskComment.messages ++ s.poll.held ++ s.inbound).filter
        (·.connectorId = "telegram")).length,
        (s.accepted.filter (·.connectorId = "telegram")).length)) = some (0, 1) := by
    decide +kernel
  obtain ⟨s, hs, hcounts⟩ := Option.map_eq_some_iff.mp hcounts
  have hbounded : ExecOk PhoneDesk.step Bounded {} notReturned := by decide +kernel
  have hkept := congrArg List.length (h s (.of_execOk hs hbounded) "telegram")
  have hnone := congrArg Prod.fst hcounts
  have hone := congrArg Prod.snd hcounts
  simp only at hnone hone
  rw [hnone, hone] at hkept
  cases hkept

end OpenAlice.Workspaces.Issues
