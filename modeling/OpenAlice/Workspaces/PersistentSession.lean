import OpenAlice.Data.Checked
import OpenAlice.Workspaces.ReplayBuffer

/-!
# A terminal session that outlives its clients

`PersistentSession` of `src/workspaces/persistent-session.ts`, as far as it moves output: what the
child process writes goes into the replay buffer and on to the client that is attached, an attach
replays the buffer from a position of the client's, and a detach leaves the process running.

An event is one turn of the event loop, and gives the messages that it sends.  A client is the
number of its socket; a socket that is gone is detached by its `close` event, so that the one
attached takes what is sent.  The picture of the screen that a cold attach shows comes from the
terminal emulator, and is part of the event.  Sizes, terminal queries, back pressure and the
child's lifetime move no output, and are left out.

`Attached` says what holds while a client stays; `received_visit` is what it gets meanwhile.
-/

namespace OpenAlice.Workspaces

structure SessionControllerClaim where
  controllerId : String
  controllerKind : String
  takeover : Bool := false

structure SessionControllerOwner where
  id : String
  kind : String

def normalizeClaim (claim : Option SessionControllerClaim) : Option SessionControllerOwner :=
  claim.bind fun claim ↦
    if claim.controllerId = "" then none
    else
      some
        { id := claim.controllerId
          kind := if claim.controllerKind = "" then "unknown" else claim.controllerKind }

/-- What a client is sent: bytes, or one of the `ServerControlMessage`s about positions. -/
inductive TerminalMessage where
  | binary (bytes : Bytes)
  | attached (replayFromSeq seq : Nat) (scrollbackTruncated : Bool)
  | cursor (seq : Nat)

structure PersistentSession where
  buffer : ReplayBuffer
  ws : Option Nat := none
  controller : Option SessionControllerOwner := none
  disposed : Bool := false
  lastCursorSeq : Nat := 0

open OpenAlice.Data

namespace PersistentSession

/-- What can happen to a session. -/
inductive Event where
  /-- `onPtyData` -/
  | output (data : Bytes)
  /-- `attach`, with what the emulator gives for its screen. -/
  | attach (ws : Nat) (since : Option Nat) (claim : Option SessionControllerClaim)
      (snapshot : Option Bytes)
  /-- `detach` -/
  | detach
  | cursorTick
  /-- `dispose` -/
  | dispose

abbrev Sent := Nat × TerminalMessage

abbrev cursorBytesInterval : Nat := 64 * 1024

def new (replayBufferBytes : Nat) (initialReplayBytes : Bytes) : Except String PersistentSession :=
  (ReplayBuffer.new replayBufferBytes).map fun buffer ↦
    { buffer := buffer.append initialReplayBytes }

def maybeSendCursor (session : PersistentSession) : PersistentSession × List Sent :=
  match session.ws with
  | none => (session, [])
  | some ws =>
    if session.disposed = true ∨ session.buffer.tailSeq = session.lastCursorSeq then (session, [])
    else
      ({ session with lastCursorSeq := session.buffer.tailSeq },
        [(ws, .cursor session.buffer.tailSeq)])

/-- The end of `onPtyData`: a cursor message, after so many bytes without one. -/
def cursorIfDue (session : PersistentSession) : PersistentSession × List Sent :=
  if cursorBytesInterval ≤ session.buffer.tailSeq - session.lastCursorSeq then
    session.maybeSendCursor
  else (session, [])

def onPtyData (session : PersistentSession) (data : Bytes) : PersistentSession × List Sent :=
  if session.disposed then (session, [])
  else
    let next := { session with buffer := session.buffer.append data }.cursorIfDue
    (next.1, (session.ws.toList.map fun ws ↦ (ws, .binary data)) ++ next.2)

def admits (session : PersistentSession) (claim : Option SessionControllerClaim) : Bool :=
  !session.disposed &&
    match normalizeClaim claim, session.ws, session.controller with
    | some owner, some _, some controller =>
      controller.id == owner.id || (claim.map (·.takeover)).getD false
    | _, _, _ => true

def attach (session : PersistentSession) (ws : Nat) (since : Option Nat)
    (claim : Option SessionControllerClaim) (snapshot : Option Bytes) :
    PersistentSession × List Sent :=
  if session.admits claim = false then (session, [])
  else
    let slice := session.buffer.since (since.getD 0)
    let scrollbackTruncated :=
      match since with
      | some since => decide (since < slice.effectiveSeq)
      | none => false
    let replayBytes := if since.isNone then snapshot.getD slice.bytes else slice.bytes
    let replay : List Sent := if 0 < replayBytes.length then [(ws, .binary replayBytes)] else []
    ({ session with
        ws := some ws
        controller := normalizeClaim claim
        lastCursorSeq := slice.tailSeq },
      replay ++ [(ws, .attached slice.effectiveSeq slice.tailSeq scrollbackTruncated)])

def detach (session : PersistentSession) : PersistentSession :=
  if session.ws = none then session else { session with ws := none, controller := none }

def dispose (session : PersistentSession) : PersistentSession :=
  if session.disposed then session
  else { session with disposed := true, ws := none, controller := none }

def step (session : PersistentSession) : Event → PersistentSession × List Sent
  | .output data => session.onPtyData data
  | .attach ws since claim snapshot => session.attach ws since claim snapshot
  | .detach => (session.detach, [])
  | .cursorTick => session.maybeSendCursor
  | .dispose => (session.dispose, [])

def run (session : PersistentSession) : List Event → PersistentSession × List Sent
  | [] => (session, [])
  | event :: events =>
    let next := session.step event
    let rest := run next.1 events
    (rest.1, next.2 ++ rest.2)

/-! ## What is said about them -/

/-- What the child process writes in the course of the events: nothing once it is killed. -/
def emitted : List Event → Bytes
  | [] => []
  | .output data :: events => data ++ emitted events
  | .attach _ _ _ _ :: events => emitted events
  | .detach :: events => emitted events
  | .cursorTick :: events => emitted events
  | .dispose :: _ => []

def received (client : Nat) (sent : List Sent) : Bytes :=
  sent.flatMap fun message ↦
    match message with
    | (ws, .binary bytes) => if ws = client then bytes else []
    | _ => []

def Ends (session : PersistentSession) : Event → Prop
  | .attach _ _ claim _ => session.admits claim = true
  | .detach | .dispose => True
  | _ => False

def Stays (session : PersistentSession) : List Event → Prop
  | [] => True
  | event :: events => ¬ session.Ends event ∧ Stays (session.step event).1 events

variable {session : PersistentSession} {stream data initial : Bytes} {event : Event}
  {events before during : List Event} {client since replayBufferBytes : Nat}
  {claim : Option SessionControllerClaim} {snapshot : Option Bytes}

theorem received_append (client : Nat) (sent later : List Sent) :
    received client (sent ++ later) = received client sent ++ received client later :=
  List.flatMap_append

theorem run_cons : (session.run (event :: events)).1 = ((session.step event).1.run events).1 ∧
    (session.run (event :: events)).2 =
      (session.step event).2 ++ ((session.step event).1.run events).2 :=
  ⟨rfl, rfl⟩

theorem emitted_cons (h : event ≠ .dispose) : emitted (event :: events) =
    emitted [event] ++ emitted events := by
  cases event with
  | output data => rw [emitted, emitted, emitted, List.append_nil]
  | dispose => exact absurd rfl h
  | attach _ _ _ _ => rfl
  | detach => rfl
  | cursorTick => rfl

theorem emitted_append (h : Event.dispose ∉ before) : emitted (before ++ events) =
    emitted before ++ emitted events := by
  induction before with
  | nil => rfl
  | cons event before ih =>
    rw [List.mem_cons, not_or] at h
    have hevent : event ≠ .dispose := fun heq ↦ h.1 heq.symm
    have hbefore : emitted (event :: before) = emitted [event] ++ emitted before :=
      emitted_cons hevent
    rw [List.cons_append, emitted_cons hevent, ih h.2, hbefore, List.append_assoc]

/-! ## The buffer of a session -/

theorem maybeSendCursor_spec (session : PersistentSession) (client : Nat) :
    received client session.maybeSendCursor.2 = [] ∧
      session.maybeSendCursor.1.buffer = session.buffer ∧
      session.maybeSendCursor.1.ws = session.ws ∧
      session.maybeSendCursor.1.disposed = session.disposed := by
  rw [maybeSendCursor]
  split
  · exact ⟨rfl, rfl, rfl, rfl⟩
  split_ifs
  · exact ⟨rfl, rfl, rfl, rfl⟩
  · exact ⟨rfl, rfl, rfl, rfl⟩

theorem cursorIfDue_spec (session : PersistentSession) (client : Nat) :
    received client session.cursorIfDue.2 = [] ∧ session.cursorIfDue.1.buffer = session.buffer ∧
      session.cursorIfDue.1.ws = session.ws ∧ session.cursorIfDue.1.disposed = session.disposed := by
  rw [cursorIfDue]
  split_ifs
  · exact maybeSendCursor_spec session client
  · exact ⟨rfl, rfl, rfl, rfl⟩

theorem onPtyData_spec (hopen : session.disposed = false) (data : Bytes) (client : Nat) :
    received client (session.onPtyData data).2 = (if session.ws = some client then data else []) ∧
      (session.onPtyData data).1.buffer = session.buffer.append data ∧
      (session.onPtyData data).1.ws = session.ws ∧
      (session.onPtyData data).1.disposed = false := by
  have hsent : received client (session.ws.toList.map fun ws ↦ (ws, .binary data)) =
      if session.ws = some client then data else [] := by
    cases session.ws with
    | none => rfl
    | some ws =>
      simp only [Option.toList_some, List.map_singleton, received, List.flatMap_singleton,
        Option.some.injEq]
  obtain ⟨hnone, hbuffer, hws, hdisposed⟩ :=
    cursorIfDue_spec { session with buffer := session.buffer.append data } client
  rw [onPtyData, hopen, if_neg Bool.false_ne_true]
  rw [hopen] at hnone hbuffer hws hdisposed
  refine ⟨?_, hbuffer, hws, hdisposed⟩
  rw [received_append, hnone, List.append_nil, hsent]

theorem attach_keeps (session : PersistentSession) (client : Nat) (since : Option Nat)
    (claim : Option SessionControllerClaim) (snapshot : Option Bytes) :
    (session.attach client since claim snapshot).1.buffer = session.buffer ∧
      (session.attach client since claim snapshot).1.disposed = session.disposed := by
  rw [attach]
  by_cases hadmits : session.admits claim = false
  · rw [if_pos hadmits]
    exact ⟨rfl, rfl⟩
  · rw [if_neg hadmits]
    exact ⟨rfl, rfl⟩

theorem detach_keeps (session : PersistentSession) :
    session.detach.buffer = session.buffer ∧ session.detach.disposed = session.disposed := by
  rw [detach]
  split_ifs
  · exact ⟨rfl, rfl⟩
  · exact ⟨rfl, rfl⟩

theorem disposed_dispose (session : PersistentSession) : session.dispose.disposed = true := by
  rw [dispose]
  split_ifs with hdisposed
  · exact hdisposed
  · rfl

theorem mirrors_step (h : session.disposed = false → session.buffer.Mirrors stream)
    (hopen : (session.step event).1.disposed = false) :
    event ≠ .dispose ∧ session.disposed = false ∧
      (session.step event).1.buffer.Mirrors (stream ++ emitted [event]) := by
  cases event with
  | output data =>
    have hbefore : session.disposed = false := by
      by_contra hdisposed
      rw [Bool.not_eq_false] at hdisposed
      rw [step, onPtyData, if_pos hdisposed, hdisposed] at hopen
      cases hopen
    refine ⟨Event.noConfusion, hbefore, ?_⟩
    rw [emitted, emitted, List.append_nil, step, (onPtyData_spec hbefore data 0).2.1]
    exact (h hbefore).append data
  | attach client since claim snapshot =>
    obtain ⟨hbuffer, hdisposed⟩ := attach_keeps session client since claim snapshot
    have hbefore := hdisposed.symm.trans hopen
    refine ⟨Event.noConfusion, hbefore, ?_⟩
    rw [emitted, emitted, List.append_nil, step, hbuffer]
    exact h hbefore
  | detach =>
    have hbefore := (detach_keeps session).2.symm.trans hopen
    refine ⟨Event.noConfusion, hbefore, ?_⟩
    rw [emitted, emitted, List.append_nil, step, (detach_keeps session).1]
    exact h hbefore
  | cursorTick =>
    obtain ⟨-, hbuffer, -, hdisposed⟩ := maybeSendCursor_spec session 0
    have hbefore := hdisposed.symm.trans hopen
    refine ⟨Event.noConfusion, hbefore, ?_⟩
    rw [emitted, emitted, List.append_nil, step, hbuffer]
    exact h hbefore
  | dispose =>
    rw [step, disposed_dispose] at hopen
    cases hopen

/-- **The buffer of a session that is there** mirrors what it has emitted. -/
theorem mirrors_run (h : session.disposed = false → session.buffer.Mirrors stream)
    (hopen : (session.run events).1.disposed = false) :
    session.disposed = false ∧ Event.dispose ∉ events ∧
      (session.run events).1.buffer.Mirrors (stream ++ emitted events) := by
  induction events generalizing session stream with
  | nil =>
    rw [emitted, List.append_nil]
    exact ⟨hopen, List.not_mem_nil, h hopen⟩
  | cons event events ih =>
    rw [run_cons.1] at hopen ⊢
    have hnext : (session.step event).1.disposed = false →
        (session.step event).1.buffer.Mirrors (stream ++ emitted [event]) :=
      fun hopen ↦ (mirrors_step h hopen).2.2
    obtain ⟨hstep, hrest, hmirrors⟩ := ih hnext hopen
    obtain ⟨hevent, hbefore, -⟩ := mirrors_step h hstep
    rw [emitted_cons hevent, ← List.append_assoc]
    refine ⟨hbefore, fun hmem ↦ ?_, hmirrors⟩
    exact (List.mem_cons.mp hmem).elim (fun heq ↦ hevent heq.symm) hrest

theorem mirrors_new (h : new replayBufferBytes initial = .ok session) :
    session.buffer.Mirrors initial ∧ session.buffer.maxBytes = replayBufferBytes := by
  obtain ⟨buffer, hbuffer, rfl⟩ := map_ok h
  have hmirrors := (ReplayBuffer.mirrors_new hbuffer).append initial
  rw [List.nil_append] at hmirrors
  refine ⟨hmirrors, ?_⟩
  rw [ReplayBuffer.maxBytes_append, ReplayBuffer.maxBytes_new hbuffer]

theorem maxBytes_step (session : PersistentSession) (event : Event) :
    (session.step event).1.buffer.maxBytes = session.buffer.maxBytes := by
  cases event with
  | output data =>
    cases hdisposed : session.disposed with
    | false =>
      rw [step, (onPtyData_spec hdisposed data 0).2.1, ReplayBuffer.maxBytes_append]
    | true => rw [step, onPtyData, if_pos hdisposed]
  | attach client since claim snapshot => rw [step, (attach_keeps ..).1]
  | detach => rw [step, (detach_keeps session).1]
  | cursorTick => rw [step, (maybeSendCursor_spec session 0).2.1]
  | dispose =>
    rw [step, dispose]
    split_ifs
    · rfl
    · rfl

theorem maxBytes_run (session : PersistentSession) (events : List Event) :
    (session.run events).1.buffer.maxBytes = session.buffer.maxBytes := by
  induction events generalizing session with
  | nil => rfl
  | cons event events ih => rw [run_cons.1, ih, maxBytes_step]

/-! ## A visit -/

structure Attached (client : Nat) (stream : Bytes) (session : PersistentSession) : Prop where
  ws : session.ws = some client
  opened : session.disposed = false
  mirrors : session.buffer.Mirrors stream

/-- **What an attach sends**: the bytes from the position asked for on, or from the oldest one
held, and then which those are. -/
theorem attach_spec (h : session.buffer.Mirrors stream) (hadmits : session.admits claim = true)
    (client since : Nat) (snapshot : Option Bytes) :
    let start := max since (stream.length - session.buffer.maxBytes)
    let next := session.attach client (some since) claim snapshot
    Attached client stream next.1 ∧ received client next.2 = stream.drop start ∧
      next.2.getLast? = some (client, .attached start stream.length
        (decide (since < stream.length - session.buffer.maxBytes))) := by
  intro start next
  have hopen : session.disposed = false := by
    rw [admits, Bool.and_eq_true, Bool.not_eq_true'] at hadmits
    exact hadmits.1
  have hstart : decide (since < start) =
      decide (since < stream.length - session.buffer.maxBytes) := by
    rw [decide_eq_decide]
    omega
  have hnext : next = ({ session with
          ws := some client
          controller := normalizeClaim claim
          lastCursorSeq := stream.length },
        (if 0 < (stream.drop start).length then [(client, .binary (stream.drop start))] else []) ++
          [(client, .attached start stream.length (decide (since < start)))]) := by
    show session.attach client (some since) claim snapshot = _
    rw [attach, hadmits, if_neg (by decide), Option.getD_some, h.since]
    rfl
  rw [hnext, hstart]
  refine ⟨⟨rfl, hopen, h⟩, ?_, List.getLast?_concat⟩
  have hattached : received client [(client, .attached start stream.length
      (decide (since < stream.length - session.buffer.maxBytes)))] = [] := rfl
  rw [received_append, hattached, List.append_nil]
  split_ifs with hbytes
  · show (if client = client then stream.drop start else []) ++ [] = _
    rw [if_pos rfl, List.append_nil]
  · exact (List.eq_nil_of_length_eq_zero (Nat.eq_zero_of_not_pos hbytes)).symm

theorem Attached.step (h : Attached client stream session) (hstays : ¬ session.Ends event) :
    Attached client (stream ++ emitted [event]) (session.step event).1 ∧
      received client (session.step event).2 = emitted [event] := by
  cases event with
  | output data =>
    obtain ⟨hreceived, hbuffer, hws, hopen⟩ := onPtyData_spec h.opened data client
    rw [emitted, emitted, List.append_nil]
    refine ⟨⟨hws.trans h.ws, hopen, ?_⟩, ?_⟩
    · rw [PersistentSession.step, hbuffer]
      exact h.mirrors.append data
    · rw [PersistentSession.step, hreceived, if_pos h.ws]
  | attach other since claim snapshot =>
    have hrefused : session.admits claim = false := Bool.eq_false_iff.mpr hstays
    rw [emitted, emitted, List.append_nil, PersistentSession.step, attach, if_pos hrefused]
    exact ⟨h, rfl⟩
  | detach => exact absurd trivial hstays
  | cursorTick =>
    obtain ⟨hreceived, hbuffer, hws, hdisposed⟩ := maybeSendCursor_spec session client
    rw [emitted, emitted, List.append_nil]
    exact ⟨⟨hws.trans h.ws, hdisposed.trans h.opened, hbuffer ▸ h.mirrors⟩, hreceived⟩
  | dispose => exact absurd trivial hstays

/-- **The events of a visit**: the client gets all that is emitted, once and in order. -/
theorem Attached.run (h : Attached client stream session) (hstays : session.Stays events) :
    Attached client (stream ++ emitted events) (session.run events).1 ∧
      received client (session.run events).2 = emitted events := by
  induction events generalizing session stream with
  | nil =>
    rw [emitted, List.append_nil]
    exact ⟨h, rfl⟩
  | cons event events ih =>
    obtain ⟨hnext, hreceived⟩ := h.step hstays.1
    obtain ⟨hlast, hrest⟩ := ih hnext hstays.2
    have hevent : event ≠ .dispose := by
      rintro rfl
      exact hstays.1 trivial
    rw [emitted_cons hevent, ← List.append_assoc, run_cons.1, run_cons.2, received_append,
      hreceived, hrest]
    exact ⟨hlast, rfl⟩

/-- **A visit**: what the client gets from its attach on, while it stays. -/
theorem received_visit (h : session.buffer.Mirrors stream) (hadmits : session.admits claim = true)
    (hsince : since ≤ stream.length) (during : List Event)
    (hstays : (session.attach client (some since) claim snapshot).1.Stays during) :
    received client (session.run (.attach client (some since) claim snapshot :: during)).2 =
      (stream ++ emitted during).drop (max since (stream.length - session.buffer.maxBytes)) := by
  obtain ⟨hattached, hreplay, -⟩ := attach_spec h hadmits client since snapshot
  obtain ⟨-, hlive⟩ := hattached.run hstays
  rw [run_cons.2, received_append, PersistentSession.step, hreplay, hlive,
    List.drop_append_of_le_length (by omega)]

/-! ## Replay is exact -/

/-- A hot attach, and what happens while its client stays. -/
structure Visit where
  client : Nat
  since : Nat
  claim : Option SessionControllerClaim := none
  snapshot : Option Bytes := none
  during : List Event

def Visit.course (visit : Visit) : List Event :=
  .attach visit.client (some visit.since) visit.claim visit.snapshot :: visit.during

def Visit.sent (visit : Visit) (opened : PersistentSession) (before : List Event) : List Sent :=
  ((opened.run before).1.run visit.course).2

def streamOf (initial : Bytes) (events : List Event) : Bytes := initial ++ emitted events

/-- The visit can be paid after the events: it asks for a position of the stream and is let in, and
nothing in the course of it is its end. -/
structure Visits (opened : PersistentSession) (initial : Bytes) (before : List Event)
    (visit : Visit) : Prop where
  since_le : visit.since ≤ (streamOf initial before).length
  admitted : (opened.run before).1.admits visit.claim = true
  stays : ((opened.run before).1.step
    (.attach visit.client (some visit.since) visit.claim visit.snapshot)).1.Stays visit.during

def Visit.start (visit : Visit) (maxBytes : Nat) (initial : Bytes) (before : List Event) : Nat :=
  max visit.since ((streamOf initial before).length - maxBytes)

def Visit.truncated (visit : Visit) (maxBytes : Nat) (initial : Bytes) (before : List Event) :
    Bool :=
  decide (visit.since < (streamOf initial before).length - maxBytes)

variable {opened : PersistentSession} {visit again : Visit}

theorem streamOf_append (h : Event.dispose ∉ before) (initial : Bytes) (events : List Event) :
    streamOf initial (before ++ events) = streamOf initial before ++ emitted events := by
  rw [streamOf, emitted_append h, ← List.append_assoc]
  rfl

theorem Visits.mirrors (hnew : new replayBufferBytes initial = .ok opened)
    (h : Visits opened initial before visit) : Event.dispose ∉ before ∧
      (opened.run before).1.buffer.Mirrors (streamOf initial before) ∧
      (opened.run before).1.buffer.maxBytes = replayBufferBytes := by
  have hopen := h.admitted
  rw [admits, Bool.and_eq_true, Bool.not_eq_true'] at hopen
  obtain ⟨hmirrors, hmax⟩ := mirrors_new hnew
  obtain ⟨-, hdispose, hrun⟩ := mirrors_run (fun _ ↦ hmirrors) hopen.1
  exact ⟨hdispose, hrun, (maxBytes_run opened before).trans hmax⟩

theorem Visits.received_eq (hnew : new replayBufferBytes initial = .ok opened)
    (h : Visits opened initial before visit) :
    received visit.client (visit.sent opened before) =
      (streamOf initial (before ++ visit.course)).drop
        (visit.start replayBufferBytes initial before) := by
  obtain ⟨hdispose, hmirrors, hmax⟩ := h.mirrors hnew
  rw [Visit.sent, Visit.course, received_visit hmirrors h.admitted h.since_le visit.during h.stays,
    hmax, streamOf_append hdispose]
  rfl

/-- **Replay is exact.**  In the course of a visit a client gets the bytes of the stream from where
its visit starts up to the end, once and in order; it is told where that is, what the stream is
when it comes, and whether bytes behind the position that it asked for were evicted.  Coming again
with the position that it has got to, it misses nothing and gets nothing twice, unless it is told. -/
theorem replay_exact (hnew : new replayBufferBytes initial = .ok opened) (before : List Event)
    (visit : Visit) (h : Visits opened initial before visit) :
    received visit.client (visit.sent opened before) =
        (streamOf initial (before ++ visit.course)).drop
          (visit.start replayBufferBytes initial before) ∧
      ((opened.run before).1.step
          (.attach visit.client (some visit.since) visit.claim visit.snapshot)).2.getLast? =
        some (visit.client, .attached (visit.start replayBufferBytes initial before)
          (streamOf initial before).length (visit.truncated replayBufferBytes initial before)) ∧
      ∀ (away : List Event) (again : Visit),
        Visits opened initial (before ++ visit.course ++ away) again →
        again.since = visit.start replayBufferBytes initial before +
          (received visit.client (visit.sent opened before)).length →
        again.truncated replayBufferBytes initial (before ++ visit.course ++ away) = false →
        received visit.client (visit.sent opened before) ++
            received again.client (again.sent opened (before ++ visit.course ++ away)) =
          (streamOf initial (before ++ visit.course ++ away ++ again.course)).drop
            (visit.start replayBufferBytes initial before) := by
  obtain ⟨-, hmirrors, hmax⟩ := h.mirrors hnew
  have hreceived := h.received_eq hnew
  refine ⟨hreceived, ?_, fun away again hagain hsince htold ↦ ?_⟩
  · obtain ⟨-, -, hattached⟩ :=
      attach_spec hmirrors h.admitted visit.client visit.since visit.snapshot
    rw [hmax] at hattached
    exact hattached
  obtain ⟨hdispose, -, -⟩ := hagain.mirrors hnew
  have hbefore : Event.dispose ∉ before ++ visit.course :=
    fun hmem ↦ hdispose (List.mem_append_left _ hmem)
  have hlength : visit.start replayBufferBytes initial before ≤
      (streamOf initial (before ++ visit.course)).length := by
    have hsince := h.since_le
    rw [streamOf_append (fun hmem ↦ hbefore (List.mem_append_left _ hmem)), List.length_append,
      Visit.start]
    omega
  have hconsumed : again.since = (streamOf initial (before ++ visit.course)).length := by
    rw [hsince, hreceived, List.length_drop]
    omega
  have hstart : again.start replayBufferBytes initial (before ++ visit.course ++ away) =
      (streamOf initial (before ++ visit.course)).length := by
    rw [Visit.truncated, decide_eq_false_iff_not, Nat.not_lt] at htold
    rw [Visit.start, Nat.max_eq_left htold, hconsumed]
  rw [hagain.received_eq hnew, hreceived, hstart, List.append_assoc _ away,
    streamOf_append hbefore, List.drop_left, List.drop_append_of_le_length hlength]

/-- Six bytes, and a buffer of four: a client that has got one of them is told that the next is
gone, and gets the rest. -/
theorem replay_exact_four : received 1 (Visit.sent ⟨1, 1, none, none, [.output [7, 8]]⟩
        { buffer := { maxBytes := 4 } } [.output [1, 2, 3, 4, 5, 6]]) = [3, 4, 5, 6, 7, 8] ∧
      ((run { buffer := { maxBytes := 4 } } [.output [1, 2, 3, 4, 5, 6]]).1.step
        (.attach 1 (some 1) none none)).2.getLast? = some (1, .attached 2 6 true) := by
  have hvisits : Visits { buffer := { maxBytes := 4 } } [] [.output [1, 2, 3, 4, 5, 6]]
      ⟨1, 1, none, none, [.output [7, 8]]⟩ :=
    ⟨by decide, by decide, ⟨id, trivial⟩⟩
  have hexact := replay_exact (rfl : new 4 [] = .ok _) [.output [1, 2, 3, 4, 5, 6]]
    ⟨1, 1, none, none, [.output [7, 8]]⟩ hvisits
  exact ⟨hexact.1, hexact.2.1⟩

end PersistentSession

end OpenAlice.Workspaces
