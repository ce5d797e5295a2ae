import Mathlib.Data.String.Basic
import Mathlib.Logic.Function.Basic

/-!
# The snapshot store

`createSnapshotStore` of `services/uta/src/domain/trading/snapshot/store.ts`: the
snapshots of an account in chunk files of at most fifty lines, next to an index with
an entry for each file.  The promise chain runs one write after the other, so a write
is one step here; the operations of the file system succeed, but for a read of a file
that is not there.

A line is the snapshot it encodes.  Times are compared as the strings they are, of
which only the order matters; an option that is empty is as good as absent.
-/

namespace OpenAlice.Trading.Snapshot

def CHUNK_SIZE : Nat := 50

/-- What the store reads of a snapshot, and the rest of it. -/
structure UTASnapshot (τ β : Type) where
  timestamp : τ
  body : β
deriving DecidableEq

structure SnapshotChunk (τ : Type) where
  file : String
  count : Nat
  startTime : τ
  endTime : τ
deriving DecidableEq

/-- The directory of an account: `index.json`, when it is there, and the lines of the
chunk files that are there. -/
structure Dir (τ β : Type) where
  index : Option (List (SnapshotChunk τ))
  files : String → Option (List (UTASnapshot τ β))

variable {τ β : Type}

namespace Dir

def empty : Dir τ β := ⟨none, fun _ ↦ none⟩

def readIndex (D : Dir τ β) : List (SnapshotChunk τ) := D.index.getD []

def saveIndex (D : Dir τ β) (chunks : List (SnapshotChunk τ)) : Dir τ β :=
  { D with index := some chunks }

/-- `writeFile`, through a temporary file. -/
def writeFile (D : Dir τ β) (file : String) (lines : List (UTASnapshot τ β)) : Dir τ β :=
  { D with files := Function.update D.files file (some lines) }

/-- `appendFile` of one line. -/
def appendFile (D : Dir τ β) (file : String) (snapshot : UTASnapshot τ β) : Dir τ β :=
  D.writeFile file ((D.files file).getD [] ++ [snapshot])

def unlink (D : Dir τ β) (file : String) : Dir τ β :=
  { D with files := Function.update D.files file none }

end Dir

def padStart (s : String) (width : Nat) (fill : Char) : String :=
  String.ofList (List.replicate (width - s.length) fill) ++ s

def chunkName (n : Nat) : String := "chunk-" ++ padStart (toString n) 4 '0' ++ ".jsonl"

/-- `doAppend` into a chunk of its own. -/
def openChunk (D : Dir τ β) (snapshot : UTASnapshot τ β) : Dir τ β :=
  let chunkFile := chunkName (D.readIndex.length + 1)
  (D.appendFile chunkFile snapshot).saveIndex
    (D.readIndex ++ [⟨chunkFile, 1, snapshot.timestamp, snapshot.timestamp⟩])

def doAppend (D : Dir τ β) (snapshot : UTASnapshot τ β) : Dir τ β :=
  match D.readIndex.getLast? with
  | none => openChunk D snapshot
  | some last =>
    if CHUNK_SIZE ≤ last.count then openChunk D snapshot
    else
      (D.appendFile last.file snapshot).saveIndex
        (D.readIndex.dropLast ++
          [{ last with count := last.count + 1, endTime := snapshot.timestamp }])

/-- `doDelete` in the chunk that has the time, between the entries before it and behind
it: the chunk goes when nothing is kept of it. -/
def rewriteChunk (D : Dir τ β) (passed : List (SnapshotChunk τ)) (chunk : SnapshotChunk τ)
    (later : List (SnapshotChunk τ)) : List (UTASnapshot τ β) → Dir τ β
  | [] => (D.unlink chunk.file).saveIndex (passed ++ later)
  | first :: rest =>
    let last := (first :: rest).getLast (List.cons_ne_nil first rest)
    (D.writeFile chunk.file (first :: rest)).saveIndex
      (passed ++ { chunk with
        count := (first :: rest).length
        startTime := first.timestamp
        endTime := last.timestamp } :: later)

variable [LinearOrder τ]

/-- The loop of `doDelete`, with the entries already passed; `none` when a read
throws. -/
def deleteFrom (D : Dir τ β) (timestamp : τ) (passed : List (SnapshotChunk τ)) :
    List (SnapshotChunk τ) → Option (Dir τ β × Bool)
  | [] => some (D, false)
  | chunk :: later =>
    if timestamp < chunk.startTime ∨ chunk.endTime < timestamp then
      deleteFrom D timestamp (passed ++ [chunk]) later
    else
      match D.files chunk.file with
      | none => none
      | some lines =>
        let kept := lines.filter fun snap ↦ snap.timestamp ≠ timestamp
        if kept.length = lines.length then deleteFrom D timestamp (passed ++ [chunk]) later
        else some (rewriteChunk D passed chunk later kept, true)

def doDelete (D : Dir τ β) (timestamp : τ) : Option (Dir τ β × Bool) :=
  deleteFrom D timestamp [] D.readIndex

/-- The options of `readRange`. -/
structure RangeOptions (τ : Type) where
  startTime : Option τ := none
  endTime : Option τ := none
  limit : Option Nat := none

def readLines (opts : RangeOptions τ) (results : List (UTASnapshot τ β)) :
    List (UTASnapshot τ β) → List (UTASnapshot τ β) × Bool
  | [] => (results, false)
  | snap :: lines =>
    if opts.startTime.any (snap.timestamp < ·) || opts.endTime.any (· < snap.timestamp) then
      readLines opts results lines
    else
      let results := results ++ [snap]
      if opts.limit.any fun limit ↦ limit ≠ 0 ∧ limit ≤ results.length then (results, true)
      else readLines opts results lines

/-- The loop of `readRange`, over the entries from the last to the first; `none` when a
read throws. -/
def readChunks (D : Dir τ β) (opts : RangeOptions τ) (results : List (UTASnapshot τ β)) :
    List (SnapshotChunk τ) → Option (List (UTASnapshot τ β))
  | [] => some results
  | chunk :: chunks =>
    if opts.startTime.any (chunk.endTime < ·) || opts.endTime.any (· < chunk.startTime) then
      readChunks D opts results chunks
    else
      match D.files chunk.file with
      | none => none
      | some lines =>
        match readLines opts results lines.reverse with
        | (results, true) => some results
        | (results, false) => readChunks D opts results chunks

def readRange (D : Dir τ β) (opts : RangeOptions τ) : Option (List (UTASnapshot τ β)) :=
  readChunks D opts [] D.readIndex.reverse

inductive WriteCall (τ β : Type) where
  | append (snapshot : UTASnapshot τ β)
  | deleteByTimestamp (timestamp : τ)

/-- What a call leaves behind: nothing has been written when a read throws. -/
def write (D : Dir τ β) : WriteCall τ β → Dir τ β
  | .append snapshot => doAppend D snapshot
  | .deleteByTimestamp timestamp => (doDelete D timestamp).elim D Prod.fst

def written (calls : List (WriteCall τ β)) : Dir τ β := calls.foldl write Dir.empty

/-! ## What the store is for -/

def logged (snapshots : List (UTASnapshot τ β)) : WriteCall τ β → List (UTASnapshot τ β)
  | .append snapshot => snapshots ++ [snapshot]
  | .deleteByTimestamp timestamp => snapshots.filter fun snap ↦ snap.timestamp ≠ timestamp

/-- The snapshots appended and not deleted, oldest first. -/
def live (calls : List (WriteCall τ β)) : List (UTASnapshot τ β) := calls.foldl logged []

end OpenAlice.Trading.Snapshot
