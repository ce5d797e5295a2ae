import Mathlib.Data.List.TakeWhile
import OpenAlice.Data.Lines
import OpenAlice.Scheduling.Scanner

/-!
# The event log

`createEventLog` of `src/core/event-log.ts`: an append-only file of JSON lines, a sequence
counter that is restored from the file, and a buffer of the newest entries.

The file is its text; a file that does not exist is read like an empty one.  `JSON.stringify`
and `JSON.parse` of an entry are a parameter, with what is true of them of entries: an entry
is an object on one line, and no part of its text that stops short of its end is JSON.

An append hands out its number when it is called; its line reaches the file later, and the
call resumes later still, both in any order.  A session can end at any time, with some
characters of a line that was on its way in the file.
-/

namespace OpenAlice.Core

open OpenAlice.Data

universe u

/-! ## Entries -/

structure EventLogEntry (J : Type u) where
  seq : Nat
  ts : Nat
  type : String
  payload : J
  causedBy : Option Nat := none

/-- JSON, as far as entries go. -/
structure EntryCodec (J : Type u) where
  /-- `JSON.stringify`. -/
  stringify : EventLogEntry J → List Char
  /-- `JSON.parse`, when it does not throw. -/
  parse : List Char → Option (EventLogEntry J)
  parse_stringify : ∀ entry, parse (stringify entry) = some entry
  /-- An object begins with its brace. -/
  head_stringify : ∀ entry, (stringify entry).head? = some '\x7b'
  newline_notMem : ∀ entry, '\n' ∉ stringify entry
  /-- The text of an object is not JSON before its last brace. -/
  parse_torn : ∀ entry torn, torn <+: stringify entry → torn ≠ stringify entry → parse torn = none

variable {J : Type u} (codec : EntryCodec J)

/-! ## Reading -/

/-- What a line holds, for the loops that skip blank and malformed lines. -/
def parseLine (line : List Char) : Option (EventLogEntry J) :=
  if Scheduling.trim line = [] then none else codec.parse line

/-- The options of `read`; `limit := none` stands for `Infinity`. -/
structure ReadOpts where
  afterSeq : Nat := 0
  limit : Option Nat := none
  type : Option String := none

/-- `filterType && entry.type !== filterType` does not hold. -/
def ReadOpts.matchesType (opts : ReadOpts) (type : String) : Bool :=
  opts.type.all fun filterType ↦ filterType = "" || type = filterType

/-- The loop of `read`, with the results so far. -/
def readLoop (opts : ReadOpts) (results : List (EventLogEntry J)) :
    List (List Char) → List (EventLogEntry J)
  | [] => results
  | line :: lines =>
    match parseLine codec line with
    | none => readLoop opts results lines
    | some entry =>
      if entry.seq ≤ opts.afterSeq then readLoop opts results lines
      else if !opts.matchesType entry.type then readLoop opts results lines
      else if opts.limit.any (· ≤ (results ++ [entry]).length) then results ++ [entry]
      else readLoop opts (results ++ [entry]) lines

def read (file : List Char) (opts : ReadOpts := {}) : List (EventLogEntry J) :=
  readLoop codec opts [] (lines '\n' file)

/-- What `recoverState` restores. -/
structure Recovered (J : Type u) where
  seq : Nat := 0
  buffer : List (EventLogEntry J) := []

/-- `slice(-n)`: the last `n`, and all of them for `n = 0`. -/
def sliceFromEnd {α : Type u} (n : Nat) (l : List α) : List α :=
  if n = 0 then l else l.drop (l.length - n)

def recoverState (file : List Char) (bufferSize : Nat) : Recovered J :=
  if Scheduling.trim file = [] then {}
  else
    let entries := (lines '\n' file).filterMap (parseLine codec)
    match entries.getLast? with
    | none => {}
    | some last => { seq := last.seq, buffer := sliceFromEnd bufferSize entries }

/-! ## Sessions -/

structure Session (J : Type u) where
  bufferSize : Nat
  seq : Nat
  buffer : List (EventLogEntry J)
  pending : List (EventLogEntry J) := []
  written : List (EventLogEntry J) := []
  /-- The lines this session has put into the file, in that order. -/
  landed : List (EventLogEntry J) := []

/-- The file, the session that is open, and all the appends that have resolved. -/
structure Journal (J : Type u) where
  file : List Char := []
  session : Option (Session J) := none
  resolved : List (EventLogEntry J) := []

/-- What can happen next. -/
inductive JournalEvent (J : Type u) where
  | create (bufferSize : Nat)
  | append (ts : Nat) (type : String) (payload : J) (causedBy : Option Nat)
  | land (n : Nat)
  | resolve (n : Nat)
  | exit
  /-- The session ends when `length` characters of the line of an append have reached the file. -/
  | crash (n length : Nat)

def lineOf (entry : EventLogEntry J) : List Char := codec.stringify entry ++ ['\n']

def pushBuffer (bufferSize : Nat) (buffer : List (EventLogEntry J)) (entry : EventLogEntry J) :
    List (EventLogEntry J) :=
  let buffer := buffer ++ [entry]
  if bufferSize < buffer.length then buffer.drop (buffer.length - bufferSize) else buffer

def Journal.step (V : Journal J) : JournalEvent J → Option (Journal J)
  | .create bufferSize =>
    match V.session with
    | some _ => none
    | none =>
      let recovered := recoverState codec V.file bufferSize
      some { V with session := some { bufferSize, seq := recovered.seq, buffer := recovered.buffer } }
  | .append ts type payload causedBy =>
    V.session.map fun s ↦
      let seq := s.seq + 1
      { V with
        session := some { s with seq, pending := s.pending ++ [{ seq, ts, type, payload, causedBy }] } }
  | .land n =>
    V.session.bind fun s ↦ s.pending[n]?.map fun entry ↦
      { V with
        file := V.file ++ lineOf codec entry
        session := some { s with
          pending := s.pending.eraseIdx n
          written := s.written ++ [entry]
          landed := s.landed ++ [entry] } }
  | .resolve n =>
    V.session.bind fun s ↦ s.written[n]?.map fun entry ↦
      { V with
        session := some { s with
          written := s.written.eraseIdx n
          buffer := pushBuffer s.bufferSize s.buffer entry }
        resolved := V.resolved ++ [entry] }
  | .exit => V.session.map fun _ ↦ { V with session := none }
  | .crash n length =>
    V.session.bind fun s ↦ s.pending[n]?.map fun entry ↦
      { V with file := V.file ++ (lineOf codec entry).take length, session := none }

/-! ## What the loops read -/

def entriesOf (file : List Char) : List (EventLogEntry J) :=
  decodeLines '\n' (parseLine codec) file

variable {codec}

theorem parseLine_nil : parseLine codec [] = none := if_pos rfl

theorem trim_eq_nil_iff {cs : List Char} :
    Scheduling.trim cs = [] ↔ ∀ c ∈ cs, Scheduling.isSpace c = true := by
  rw [Scheduling.trim, List.reverse_eq_nil_iff, List.dropWhile_eq_nil_iff]
  constructor
  · intro h
    rw [← List.dropWhile_eq_nil_iff]
    refine List.eq_nil_iff_forall_not_mem.mpr fun c hc ↦ ?_
    have hne := List.ne_nil_of_mem hc
    have hhead := List.head_dropWhile_not Scheduling.isSpace hne
    rw [h _ (List.mem_reverse.mpr (List.head_mem hne))] at hhead
    exact nomatch hhead
  · intro h c hc
    exact h c (List.dropWhile_sublist _ |>.subset (List.mem_reverse.mp hc))

theorem trim_stringify (entry : EventLogEntry J) : Scheduling.trim (codec.stringify entry) ≠
    [] := by
  obtain ⟨text, htext⟩ := List.head?_eq_some_iff.mp (codec.head_stringify entry)
  rw [htext, Ne, trim_eq_nil_iff]
  intro h
  exact absurd (h _ List.mem_cons_self) (by decide)

theorem parseLine_stringify (entry : EventLogEntry J) :
    parseLine codec (codec.stringify entry) = some entry := by
  rw [parseLine, if_neg (trim_stringify entry), codec.parse_stringify]

theorem parseLine_torn {entry : EventLogEntry J} {torn : List Char}
    (h : torn <+: codec.stringify entry) (hne : torn ≠ codec.stringify entry) :
    parseLine codec torn = none := by
  rw [parseLine, codec.parse_torn entry torn h hne, ite_self]

/-- **What `read` returns**: with nothing to filter, the entries of the file with a number. -/
theorem readLoop_eq (results : List (EventLogEntry J)) (ls : List (List Char)) :
    readLoop codec {} results ls =
      results ++ (ls.filterMap (parseLine codec)).filter fun entry ↦ 0 < entry.seq := by
  induction ls generalizing results with
  | nil => exact (List.append_nil _).symm
  | cons line ls ih =>
    rw [readLoop, List.filterMap_cons]
    cases parseLine codec line with
    | none => exact ih results
    | some entry =>
      by_cases hseq : entry.seq ≤ 0
      · simp only [hseq, if_true]
        rw [ih, List.filter_cons_of_neg (by simpa using hseq)]
      simp only [hseq, if_false]
      rw [List.filter_cons_of_pos (by simpa using Nat.pos_of_ne_zero (by omega))]
      exact (ih _).trans (List.append_assoc _ _ _)

theorem read_eq (file : List Char) :
    read codec file = (entriesOf codec file).filter fun entry ↦ 0 < entry.seq := readLoop_eq [] _

theorem readLoop_sublist (opts : ReadOpts) (results : List (EventLogEntry J))
    (ls : List (List Char)) :
    (readLoop codec opts results ls).Sublist (results ++ ls.filterMap (parseLine codec)) := by
  induction ls generalizing results with
  | nil => exact (List.append_nil _).symm ▸ List.Sublist.refl _
  | cons line ls ih =>
    rw [readLoop, List.filterMap_cons]
    cases parseLine codec line with
    | none => exact ih results
    | some entry =>
      have hskip : (results ++ ls.filterMap (parseLine codec)).Sublist
          (results ++ entry :: ls.filterMap (parseLine codec)) :=
        (List.sublist_cons_self _ _).append_left results
      have htake : (results ++ [entry] ++ ls.filterMap (parseLine codec)) =
          results ++ entry :: ls.filterMap (parseLine codec) := by
        rw [List.append_assoc, List.singleton_append]
      simp only
      split_ifs
      · exact (ih results).trans hskip
      · exact (ih results).trans hskip
      · exact htake ▸ List.sublist_append_left _ _
      · exact htake ▸ ih _

theorem read_sublist (file : List Char) (opts : ReadOpts) :
    (read codec file opts).Sublist (entriesOf codec file) := readLoop_sublist opts [] _

theorem entriesOf_of_blank {file : List Char} (h : Scheduling.trim file = []) :
    entriesOf codec file = [] := by
  refine List.filterMap_eq_nil_iff.mpr fun line hline ↦ ?_
  refine if_pos (trim_eq_nil_iff.mpr fun c hc ↦ ?_)
  exact trim_eq_nil_iff.mp h c (mem_of_mem_lines hline hc)

/-- **What `recoverState` restores**: the number of the last entry. -/
theorem recoverState_seq (file : List Char) (bufferSize : Nat) :
    (recoverState codec file bufferSize).seq =
      (entriesOf codec file).getLast?.elim 0 EventLogEntry.seq := by
  rw [recoverState]
  split_ifs with hblank
  · rw [entriesOf_of_blank hblank]
    rfl
  · simp only [entriesOf, decodeLines]
    cases (List.filterMap (parseLine codec) (lines '\n' file)).getLast? <;> rfl

theorem entriesOf_line {file : List Char} (h : Complete '\n' file) (entry : EventLogEntry J) :
    entriesOf codec (file ++ lineOf codec entry) = entriesOf codec file ++ [entry] := by
  rw [entriesOf, decodeLines_append parseLine_nil h, lineOf,
    decodeLines_line parseLine_nil (codec.newline_notMem entry), parseLine_stringify]
  rfl

end OpenAlice.Core
