import OpenAlice.Data.Ranked
import OpenAlice.Run.Basic

/-!
# The news archive

`NewsCollectorStore` of `src/domain/news/store.ts`: an append-only file of JSON lines, the
dedup keys of everything ever written, and a buffer of recent records for the queries.

The file is its lines as `JSON.parse` leaves them; a line that is blank or malformed is `none`.
Calls of `ingest` run one after another through `writeChain`.  Each is three steps: the dedup
check with the new record, the append to the file, which may fail with nothing written, and
the record's entry into the buffer.  The process can end between any two, and a store that
starts rebuilds itself from the file.  `close` only empties a store that is not used again.

Times are milliseconds, and `Date.now()` is a clock of the archive that `tick` sets.
-/

namespace OpenAlice.News

open OpenAlice.Data OpenAlice.Run

/-! ## Records -/

structure NewsRecord where
  seq : Nat
  ts : Int
  pubTs : Int
  dedupKey : String
  title : String
  content : String
  metadata : List (String × Option String)
deriving DecidableEq

/-- What `ingest` is given. -/
structure NewsInput where
  title : String
  content : String
  pubTime : Int
  dedupKey : String
  metadata : List (String × Option String)

/-- `NewsItem`, the answer of a query. -/
structure NewsItem where
  id : Nat
  time : Int
  title : String
  content : String
  metadata : List (String × Option String)

def recordToNewsItem (record : NewsRecord) : NewsItem where
  id := record.seq
  time := record.pubTs
  title := record.title
  content := record.content
  metadata := record.metadata

/-! ## The store -/

/-- The options of a store, as the config checks them. -/
structure NewsOpts where
  maxInMemory : Nat := 2000
  retentionDays : Nat := 7
  positive : 0 < maxInMemory := by decide

/-- `NewsCollectorStore`. -/
structure NewsStore where
  opts : NewsOpts
  buffer : List NewsRecord := []
  dedupSet : List String := []
  seq : Nat := 0

def NewsOpts.retentionCutoff (opts : NewsOpts) (now : Int) : Int :=
  now - opts.retentionDays * 24 * 60 * 60 * 1000

/-- `slice(-maxInMemory)`, when the buffer is over the limit. -/
def NewsOpts.trim (opts : NewsOpts) (buffer : List NewsRecord) : List NewsRecord :=
  if opts.maxInMemory < buffer.length then buffer.rtake opts.maxInMemory else buffer

/-- The body of the loop of `init`. -/
def NewsStore.recover (retentionCutoff : Int) (store : NewsStore) : Option NewsRecord → NewsStore
  | none => store
  | some record =>
    { store with
      dedupSet := store.dedupSet.insert record.dedupKey
      seq := max store.seq record.seq
      buffer :=
        if retentionCutoff ≤ record.pubTs then store.buffer ++ [record] else store.buffer }

/-- `init` of a new store. -/
def init (opts : NewsOpts) (now : Int) (file : List (Option NewsRecord)) : NewsStore :=
  let store := file.foldl (NewsStore.recover (opts.retentionCutoff now)) { opts }
  { store with buffer := opts.trim (sortRank NewsRecord.pubTs store.buffer) }

def NewsStore.nextRecord (store : NewsStore) (now : Int) (item : NewsInput) : NewsRecord where
  seq := store.seq + 1
  ts := now
  pubTs := item.pubTime
  dedupKey := item.dedupKey
  title := item.title
  content := item.content
  metadata := item.metadata

/-- The end of `_ingestImpl`. -/
def NewsStore.remember (store : NewsStore) (record : NewsRecord) : NewsStore :=
  { store with
    dedupSet := store.dedupSet.insert record.dedupKey
    buffer := store.opts.trim (store.buffer ++ [record]) }

/-! ## Queries -/

def parseLookback (lookback : String) : Option Int :=
  let digits := lookback.toList.takeWhile Char.isDigit
  let value : Int := Nat.ofDigitChars 10 digits 0
  if digits = [] then none
  else
    match lookback.toList.dropWhile Char.isDigit with
    | [unit] =>
      if unit.toLower = 'h' then some (value * 60 * 60 * 1000)
      else if unit.toLower = 'd' then some (value * 24 * 60 * 60 * 1000)
      else none
    | _ => none

structure GetNewsV2Options where
  endTime : Int
  startTime : Option Int := none
  lookback : Option String := none
  limit : Option Nat := none

def GetNewsV2Options.startMs (options : GetNewsV2Options) : Option Int :=
  match options.startTime with
  | some startTime => some startTime
  | none => (options.lookback.bind parseLookback).map (options.endTime - ·)

def GetNewsV2Options.admits (options : GetNewsV2Options) (record : NewsRecord) : Bool :=
  decide (record.pubTs ≤ options.endTime) && options.startMs.all fun startMs ↦
    decide (startMs < record.pubTs)

/-- `slice(-limit)`, when there is a limit. -/
def GetNewsV2Options.cut (options : GetNewsV2Options) (records : List NewsRecord) :
    List NewsRecord :=
  match options.limit with
  | none | some 0 => records
  | some limit => if limit < records.length then records.rtake limit else records

def getNewsV2 (store : NewsStore) (options : GetNewsV2Options) : List NewsItem :=
  (options.cut (sortRank NewsRecord.pubTs (store.buffer.filter options.admits))).map
    recordToNewsItem

/-! ## The machine -/

/-- The `_ingestImpl` under way. -/
inductive Running where
  | idle
  /-- In `appendFile`. -/
  | appending (record : NewsRecord)
  | appended (record : NewsRecord)

/-- A store that has been initialised, with the calls of `ingest` that wait for their turn. -/
structure NewsSession where
  store : NewsStore
  queue : List NewsInput := []
  running : Running := .idle

/-- The clock, the file, and the store that is open. -/
structure Archive where
  now : Int := 0
  file : List (Option NewsRecord) := []
  session : Option NewsSession := none

/-- What can happen next. -/
inductive NewsEvent where
  /-- The clock moves. -/
  | tick (now : Int)
  | create (opts : NewsOpts)
  | ingest (item : NewsInput)
  /-- The next `_ingestImpl` begins. -/
  | begin
  | land
  /-- `appendFile` rejects. -/
  | reject
  /-- It resumes after `appendFile`. -/
  | resume
  /-- The process ends. -/
  | exit

/-- The beginning of `_ingestImpl`. -/
def NewsSession.begin (s : NewsSession) (now : Int) : Option NewsSession :=
  match s.running, s.queue with
  | .idle, item :: queue =>
    if item.dedupKey ∈ s.store.dedupSet then some { s with queue }
    else
      some { store := { s.store with seq := s.store.seq + 1 }
             queue
             running := .appending (s.store.nextRecord now item) }
  | _, _ => none

def NewsSession.step (s : NewsSession) (a : Archive) : NewsEvent → Option Archive
  | .ingest item => some { a with session := some { s with queue := s.queue ++ [item] } }
  | .begin => (s.begin a.now).map fun s' ↦ { a with session := some s' }
  | .land =>
    match s.running with
    | .appending record =>
      some { a with
        file := a.file ++ [some record]
        session := some { s with running := .appended record } }
    | _ => none
  | .reject =>
    match s.running with
    | .appending _ => some { a with session := some { s with running := .idle } }
    | _ => none
  | .resume =>
    match s.running with
    | .appended record =>
      some { a with
        session := some { s with store := s.store.remember record, running := .idle } }
    | _ => none
  | .exit => some { a with session := none }
  | _ => none

def newsStep (a : Archive) : NewsEvent → Option Archive
  | .tick now => some { a with now }
  | .create opts =>
    match a.session with
    | none => some { a with session := some { store := init opts a.now a.file } }
    | some _ => none
  | e => a.session.bind fun s ↦ s.step a e

/-! ## What a store rebuilds -/

def recordsOf (file : List (Option NewsRecord)) : List NewsRecord := file.filterMap id

def NewsOpts.retains (opts : NewsOpts) (now : Int) (record : NewsRecord) : Bool :=
  decide (opts.retentionCutoff now ≤ record.pubTs)

variable {opts : NewsOpts} {now : Int} {file : List (Option NewsRecord)}

theorem trim_eq_rtake (opts : NewsOpts) (buffer : List NewsRecord) :
    opts.trim buffer = buffer.rtake opts.maxInMemory := by
  rw [NewsOpts.trim]
  split_ifs with h
  · rfl
  · exact (rtake_of_length_le (not_lt.mp h)).symm

theorem recordsOf_concat (file : List (Option NewsRecord)) (record : NewsRecord) :
    recordsOf (file ++ [some record]) = recordsOf file ++ [record] := by
  rw [recordsOf, List.filterMap_append, recordsOf]
  rfl

/-- What the loop of `init` has gathered. -/
theorem foldl_recover (opts : NewsOpts) (now : Int) (file : List (Option NewsRecord)) :
    (file.foldl (NewsStore.recover (opts.retentionCutoff now)) { opts }).opts = opts ∧
      (file.foldl (NewsStore.recover (opts.retentionCutoff now)) { opts }).buffer =
        (recordsOf file).filter (opts.retains now) ∧
      ∀ key, key ∈ (file.foldl (NewsStore.recover (opts.retentionCutoff now)) { opts }).dedupSet ↔
        key ∈ (recordsOf file).map NewsRecord.dedupKey := by
  induction file using List.reverseRecOn with
  | nil => exact ⟨rfl, rfl, fun _ ↦ Iff.rfl⟩
  | append_singleton file line ih =>
    obtain ⟨hopts, hbuffer, hkeys⟩ := ih
    rw [List.foldl_append, List.foldl_cons, List.foldl_nil]
    cases line with
    | none =>
      have hsame : recordsOf (file ++ [none]) = recordsOf file := by
        rw [recordsOf, List.filterMap_append, recordsOf]
        exact List.append_nil _
      rw [hsame]
      exact ⟨hopts, hbuffer, hkeys⟩
    | some record =>
      rw [recordsOf_concat]
      refine ⟨hopts, ?_, fun key ↦ ?_⟩
      · rw [List.filter_append, List.filter_singleton, NewsOpts.retains]
        simp only [NewsStore.recover, hbuffer]
        split_ifs with h
        · rw [decide_eq_true h, cond_true]
        · rw [decide_eq_false h, cond_false, List.append_nil]
      · rw [NewsStore.recover, List.mem_insert_iff, hkeys, List.map_append, List.mem_append,
          List.map_singleton, List.mem_singleton, or_comm]

/-- **What a store rebuilds**: the most recently published records of those in the window. -/
theorem init_buffer (opts : NewsOpts) (now : Int) (file : List (Option NewsRecord)) :
    (init opts now file).buffer =
      (sortRank NewsRecord.pubTs ((recordsOf file).filter (opts.retains now))).rtake
        opts.maxInMemory := by
  simp only [init]
  rw [trim_eq_rtake, (foldl_recover opts now file).2.1]

theorem init_opts : (init opts now file).opts = opts := (foldl_recover opts now file).1

theorem mem_init_dedupSet {key : String} :
    key ∈ (init opts now file).dedupSet ↔ key ∈ (recordsOf file).map NewsRecord.dedupKey :=
  (foldl_recover opts now file).2.2 key

end OpenAlice.News
