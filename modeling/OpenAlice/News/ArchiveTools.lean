import OpenAlice.News.Restart

/-!
# The tools of the news archive

`src/domain/news/query/archive.ts`: three searches over what `getNewsV2` of the store answers, and
`readRss`, which resolves the id of an article.  The searches take their articles from different
views of the buffer: the last 500 up to now, of a lookback or of all, and for a window the last 5000
of its own start and end.  `readRss` looks among the last 500 up to now.

So what a search has found need not be found again while it is in memory.  `InReach` says of which
records it is, and `found_is_read` that these are all.

What of the language's library the tools call is the parameter `lib`.  A time is in milliseconds; a
text of it is made where the source makes one.
-/

namespace OpenAlice.News

open OpenAlice.Data OpenAlice.Run

/-! ## The searches -/

structure RegExpMatch where
  index : Nat
  length : Nat

structure NewsLibrary where
  /-- `new RegExp(pattern, 'i')` with `exec` from the start of a text; `none` where it throws. -/
  regExp : String → Option (String → Option RegExpMatch)
  /-- `text.length` -/
  length : String → Nat
  /-- `text.slice(start, end)` -/
  slice : String → Nat → Nat → String
  /-- `JSON.stringify(metadata)` -/
  stringify : List (String × Option String) → String
  /-- `new Date(time).toISOString()` -/
  toISOString : Int → String
  /-- `a.localeCompare(b) <= 0` -/
  localeLe : String → String → Bool
  /-- `new Date(text).getTime()`; `none` is `NaN`. -/
  parseDate : String → Option Int

def newsLimit : Nat := 500

def windowDefaultLimit : Nat := 40

structure RssResult where
  id : Nat
  time : String
  title : String
  matchedText : Option String := none
  contentLength : Option Nat := none
  metadata : String

section Searches

variable (lib : NewsLibrary)

def truncateMetadata (metadata : List (String × Option String)) : String :=
  let str := lib.stringify metadata
  if lib.length str ≤ 40 then str else lib.slice str 0 (40 - 3) ++ "..."

def matchesMetadataFilter (metadata : List (String × Option String))
    (filter : List (String × String)) : Bool :=
  filter.all fun entry ↦ metadata.lookup entry.1 = some (some entry.2)

def collect (limit : Option Nat) (find : NewsItem → Option RssResult) (results : List RssResult) :
    List NewsItem → List RssResult
  | [] => results
  | item :: news =>
    match find item with
    | none => collect limit find results news
    | some result =>
      if limit.any fun limit ↦ limit ≠ 0 && limit ≤ results.length + 1 then results ++ [result]
      else collect limit find (results ++ [result]) news

structure RssOptions where
  pattern : String
  contextChars : Option Nat := none
  metadataFilter : Option (List (String × String)) := none
  limit : Option Nat := none

def RssOptions.passes (options : RssOptions) (item : NewsItem) : Bool :=
  options.metadataFilter.all (matchesMetadataFilter item.metadata)

def snippet (options : RssOptions) (searchText : String) (m : RegExpMatch) : String :=
  let contextChars := options.contextChars.getD 50
  let contextStart := m.index - contextChars
  let contextEnd := min (lib.length searchText) (m.index + m.length + contextChars)
  (if 0 < contextStart then "..." else "") ++ lib.slice searchText contextStart contextEnd ++
    if contextEnd < lib.length searchText then "..." else ""

def searchText (item : NewsItem) : String := item.title ++ "\n" ++ item.content

/-- `globRss`; it throws on a pattern that is none. -/
def globRss (news : List NewsItem) (options : RssOptions) : Option (List RssResult) :=
  (lib.regExp options.pattern).map fun regex ↦
    collect options.limit (fun item ↦
      if options.passes item && (regex item.title).isSome then
        some {
          id := item.id
          time := lib.toISOString item.time
          title := item.title
          contentLength := some (lib.length item.content)
          metadata := truncateMetadata lib item.metadata }
      else none) [] news

def grepRss (news : List NewsItem) (options : RssOptions) : Option (List RssResult) :=
  (lib.regExp options.pattern).map fun regex ↦
    collect options.limit (fun item ↦
      if options.passes item then
        (regex (searchText item)).map fun m ↦ {
          id := item.id
          time := lib.toISOString item.time
          title := item.title
          matchedText := some (snippet lib options (searchText item) m)
          contentLength := some (lib.length item.content)
          metadata := truncateMetadata lib item.metadata }
      else none) [] news

/-- The entries of `windowRss`, the oldest first; an empty snippet is none. -/
def windowEntries (news : List NewsItem) (options : RssOptions)
    (find : NewsItem → Option (Option String)) : List RssResult :=
  (news.filterMap fun item ↦
    if options.passes item then
      (find item).map fun matchedText ↦ {
        id := item.id
        time := lib.toISOString item.time
        title := item.title
        matchedText := matchedText.filter (· ≠ "")
        metadata := truncateMetadata lib item.metadata }
    else none).mergeSort fun a b ↦ lib.localeLe a.time b.time

/-- `options.limit ? out.slice(0, options.limit) : out` -/
def RssOptions.slice (options : RssOptions) (out : List RssResult) : List RssResult :=
  match options.limit with
  | none | some 0 => out
  | some limit => out.take limit

/-- `windowRss`; the empty pattern is none. -/
def windowRss (news : List NewsItem) (options : RssOptions) : Option (List RssResult) :=
  if options.pattern = "" then
    some (options.slice (windowEntries lib news options fun _ ↦ some none))
  else
    (lib.regExp options.pattern).map fun regex ↦
      options.slice (windowEntries lib news options fun item ↦
        (regex (searchText item)).map fun m ↦ some (snippet lib options (searchText item) m))

def readRss (news : List NewsItem) (id : Nat) : Option NewsItem :=
  news.find? fun item ↦ item.id = id

/-! ## The tools -/

/-- The options of `globRss` and `grepRss`. -/
structure SearchOptions extends RssOptions where
  lookback : Option String := none

/-- The options of `windowRss`. -/
structure WindowOptions extends RssOptions where
  «from» : String
  «to» : Option String := none

/-- What `windowRss` answers. -/
structure WindowAnswer where
  «from» : String
  «to» : String
  total : Nat
  shown : Nat
  omitted : Option Nat
  results : List RssResult

def searchPool (store : NewsStore) (now : Int) (lookback : Option String) : List NewsItem :=
  getNewsV2 store { endTime := now, lookback, limit := some newsLimit }

def globRssExecute (store : NewsStore) (now : Int) (options : SearchOptions) :
    Option (List RssResult) :=
  globRss lib (searchPool store now options.lookback) options.toRssOptions

def grepRssExecute (store : NewsStore) (now : Int) (options : SearchOptions) :
    Option (List RssResult) :=
  grepRss lib (searchPool store now options.lookback) options.toRssOptions

def windowRssExecute (store : NewsStore) (now : Int) (options : WindowOptions) :
    Option (Except String WindowAnswer) :=
  let endTime := match options.«to».filter (· ≠ "") with
    | some text => lib.parseDate text
    | none => some now
  match lib.parseDate options.«from», endTime with
  | some startTime, some endTime =>
    (windowRss lib (getNewsV2 store { endTime, startTime := some startTime, limit := some 5000 })
      { options.toRssOptions with limit := none }).map fun all ↦
        let cap := options.limit.getD windowDefaultLimit
        let results := all.take cap
        let omitted := all.length - results.length
        .ok {
          «from» := lib.toISOString startTime
          «to» := lib.toISOString endTime
          total := all.length
          shown := results.length
          omitted := if 0 < omitted then some omitted else none
          results }
  | _, _ => some (.error "from/to must be YYYY-MM-DD or ISO dates.")

end Searches

def readRssExecute (store : NewsStore) (now : Int) (id : Nat) : Except String NewsItem :=
  match readRss (getNewsV2 store { endTime := now, limit := some newsLimit }) id with
  | some result => .ok result
  | none => .error s!"Article id {id} not found"

inductive SearchCall where
  | globRss (options : SearchOptions)
  | grepRss (options : SearchOptions)
  | windowRss (options : WindowOptions)

/-- The entries of its answer; none where it throws or answers with an error. -/
def SearchCall.results (lib : NewsLibrary) (store : NewsStore) (now : Int) :
    SearchCall → List RssResult
  | globRss options => (globRssExecute lib store now options).getD []
  | grepRss options => (grepRssExecute lib store now options).getD []
  | windowRss options =>
    match windowRssExecute lib store now options with
    | some (.ok answer) => answer.results
    | _ => []

/-! ## What a search finds -/

section Found

variable {lib : NewsLibrary} {store : NewsStore} {now : Int} {news : List NewsItem}
  {options : RssOptions} {entry : RssResult}

structure Shows (lib : NewsLibrary) (entry : RssResult) (item : NewsItem) : Prop where
  id : entry.id = item.id
  time : entry.time = lib.toISOString item.time
  title : entry.title = item.title

variable {results : List RssResult}

theorem mem_collect {limit : Option Nat} {find : NewsItem → Option RssResult}
    (h : entry ∈ collect limit find results news) :
    entry ∈ results ∨ ∃ item ∈ news, find item = some entry := by
  induction news generalizing results with
  | nil => exact .inl h
  | cons item news ih =>
    have hconcat : ∀ result, find item = some result → entry ∈ results ++ [result] →
        entry ∈ results ∨ ∃ item' ∈ item :: news, find item' = some entry := by
      intro result hfind hmem
      rcases List.mem_append.mp hmem with hmem | hmem
      · exact .inl hmem
      · exact .inr ⟨item, .head _, List.mem_singleton.mp hmem ▸ hfind⟩
    have hlater : (∃ item' ∈ news, find item' = some entry) →
        ∃ item' ∈ item :: news, find item' = some entry := fun ⟨item', hitem, hfind⟩ ↦
      ⟨item', .tail _ hitem, hfind⟩
    rw [collect] at h
    cases hfind : find item with
    | none =>
      rw [hfind] at h
      exact (ih h).imp_right hlater
    | some result =>
      simp only [hfind] at h
      split_ifs at h
      · exact hconcat result hfind h
      rcases ih h with h | h
      · exact hconcat result hfind h
      · exact .inr (hlater h)

theorem shows_of_globRss (h : globRss lib news options = some results)
    (hentry : entry ∈ results) : ∃ item ∈ news, Shows lib entry item := by
  obtain ⟨regex, -, rfl⟩ := Option.map_eq_some_iff.mp h
  rcases mem_collect hentry with hnil | ⟨item, hitem, hfind⟩
  · cases hnil
  split_ifs at hfind
  cases hfind
  exact ⟨item, hitem, rfl, rfl, rfl⟩

theorem shows_of_grepRss (h : grepRss lib news options = some results)
    (hentry : entry ∈ results) : ∃ item ∈ news, Shows lib entry item := by
  obtain ⟨regex, -, rfl⟩ := Option.map_eq_some_iff.mp h
  rcases mem_collect hentry with hnil | ⟨item, hitem, hfind⟩
  · cases hnil
  split_ifs at hfind
  obtain ⟨m, -, rfl⟩ := Option.map_eq_some_iff.mp hfind
  exact ⟨item, hitem, rfl, rfl, rfl⟩

theorem slice_subset (options : RssOptions) (out : List RssResult) : options.slice out ⊆ out := by
  rw [RssOptions.slice]
  split
  · exact List.Subset.refl out
  · exact List.Subset.refl out
  · exact List.take_subset _ out

theorem shows_of_windowEntries {find : NewsItem → Option (Option String)}
    (hentry : entry ∈ windowEntries lib news options find) :
    ∃ item ∈ news, Shows lib entry item := by
  rw [windowEntries, List.mem_mergeSort] at hentry
  obtain ⟨item, hitem, hfind⟩ := List.mem_filterMap.mp hentry
  split_ifs at hfind
  obtain ⟨m, -, rfl⟩ := Option.map_eq_some_iff.mp hfind
  exact ⟨item, hitem, rfl, rfl, rfl⟩

theorem shows_of_windowRss
    (h : windowRss lib news options = some results) (hentry : entry ∈ results) :
    ∃ item ∈ news, Shows lib entry item := by
  rw [windowRss] at h
  split_ifs at h
  · cases h
    exact shows_of_windowEntries (slice_subset options _ hentry)
  · obtain ⟨regex, -, rfl⟩ := Option.map_eq_some_iff.mp h
    exact shows_of_windowEntries (slice_subset options _ hentry)

theorem mem_getNewsV2 {options : GetNewsV2Options} {item : NewsItem}
    (h : item ∈ getNewsV2 store options) :
    ∃ record ∈ store.buffer, recordToNewsItem record = item := by
  obtain ⟨record, hrecord, rfl⟩ := List.mem_map.mp h
  have hcut : ∀ l : List NewsRecord, options.cut l ⊆ l := by
    intro l
    rw [GetNewsV2Options.cut]
    split
    · exact List.Subset.refl l
    · exact List.Subset.refl l
    · split_ifs
      · exact (rtake_sublist _ l).subset
      · exact List.Subset.refl l
  have hsorted := mem_sortRank.mp (hcut _ hrecord)
  exact ⟨record, List.mem_of_mem_filter hsorted, rfl⟩

theorem SearchCall.shows {call : SearchCall} (h : entry ∈ call.results lib store now) :
    ∃ record ∈ store.buffer, Shows lib entry (recordToNewsItem record) := by
  have hitem : ∃ item, (∃ record ∈ store.buffer, recordToNewsItem record = item) ∧
      Shows lib entry item := by
    cases call with
    | globRss options =>
      rw [results] at h
      cases hresults : globRssExecute lib store now options with
      | none =>
        rw [hresults] at h
        cases h
      | some results =>
        rw [hresults] at h
        obtain ⟨item, hitem, hshows⟩ := shows_of_globRss hresults h
        exact ⟨item, mem_getNewsV2 hitem, hshows⟩
    | grepRss options =>
      rw [results] at h
      cases hresults : grepRssExecute lib store now options with
      | none =>
        rw [hresults] at h
        cases h
      | some results =>
        rw [hresults] at h
        obtain ⟨item, hitem, hshows⟩ := shows_of_grepRss hresults h
        exact ⟨item, mem_getNewsV2 hitem, hshows⟩
    | windowRss options =>
      rw [results] at h
      split at h
      · rename_i answer hanswer
        rw [windowRssExecute] at hanswer
        split at hanswer
        · obtain ⟨all, hall, hok⟩ := Option.map_eq_some_iff.mp hanswer
          cases hok
          obtain ⟨item, hitem, hshows⟩ := shows_of_windowRss hall (List.mem_of_mem_take h)
          exact ⟨item, mem_getNewsV2 hitem, hshows⟩
        · cases hanswer
      · cases h
  obtain ⟨item, ⟨record, hrecord, rfl⟩, hshows⟩ := hitem
  exact ⟨record, hrecord, hshows⟩

end Found

/-! ## What `readRss` finds -/

section Read

variable {store : NewsStore} {now : Int} {record : NewsRecord}

/-- **Where `readRss` looks**: the record is published, and fewer than 500 of the published ones are
sorted behind it. -/
def InReach (store : NewsStore) (now : Int) (record : NewsRecord) : Prop :=
  record.pubTs ≤ now ∧
    (rankedAbove NewsRecord.pubTs (store.buffer.filter fun r ↦ r.pubTs ≤ now) record).length <
      newsLimit

theorem readRssExecute_iff (hnodup : (store.buffer.map NewsRecord.seq).Nodup)
    (hrecord : record ∈ store.buffer) :
    readRssExecute store now record.seq = .ok (recordToNewsItem record) ↔
      InReach store now record := by
  have hadmits : store.buffer.filter (GetNewsV2Options.admits
      { endTime := now, limit := some newsLimit }) = store.buffer.filter fun r ↦ r.pubTs ≤ now := by
    refine List.filter_congr fun r _ ↦ ?_
    exact Bool.and_true _
  have hpool : getNewsV2 store { endTime := now, limit := some newsLimit } =
      ((sortRank NewsRecord.pubTs (store.buffer.filter fun r ↦ r.pubTs ≤ now)).rtake
        newsLimit).map recordToNewsItem := by
    rw [getNewsV2, hadmits, cut_of_limit rfl]
    rfl
  generalize hpublished : store.buffer.filter (fun r ↦ decide (r.pubTs ≤ now)) = published at *
  have hsub : ((sortRank NewsRecord.pubTs published).rtake newsLimit) ⊆ store.buffer := by
    intro r hr
    have hmem := mem_sortRank.mp ((rtake_sublist newsLimit _).subset hr)
    rw [← hpublished] at hmem
    exact List.mem_of_mem_filter hmem
  have hread : readRssExecute store now record.seq = .ok (recordToNewsItem record) ↔
      record ∈ (sortRank NewsRecord.pubTs published).rtake newsLimit := by
    rw [readRssExecute, hpool, readRss]
    generalize (sortRank NewsRecord.pubTs published).rtake newsLimit = pool at hsub ⊢
    rw [List.find?_map]
    cases hfind : pool.find? ((fun item ↦ decide (item.id = record.seq)) ∘ recordToNewsItem) with
    | none =>
      rw [List.find?_eq_none] at hfind
      constructor
      · rintro ⟨⟩
      · exact fun hmem ↦ absurd (decide_eq_true rfl) (hfind record hmem)
    | some r =>
      have hr := List.mem_of_find?_eq_some hfind
      have htest := List.find?_some hfind
      have hseq : r.seq = record.seq := of_decide_eq_true htest
      obtain rfl := List.inj_on_of_nodup_map hnodup (hsub hr) hrecord hseq
      exact ⟨fun _ ↦ hr, fun _ ↦ rfl⟩
  rw [hread, InReach, hpublished]
  have hbuffer := hnodup.of_map
  constructor
  · intro hmem
    have hin := mem_sortRank.mp ((rtake_sublist newsLimit _).subset hmem)
    have hnow := (List.mem_filter.mp (hpublished ▸ hin)).2
    refine ⟨of_decide_eq_true hnow, (mem_rtake_sortRank_iff ?_ hin).mp hmem⟩
    exact hpublished ▸ hbuffer.filter _
  · rintro ⟨hnow, hfew⟩
    have hin : record ∈ published := hpublished ▸ List.mem_filter.mpr ⟨hrecord, decide_eq_true hnow⟩
    exact (mem_rtake_sortRank_iff (hpublished ▸ hbuffer.filter _) hin).mpr hfew

end Read

/-! ## The numbers of the records -/

section Numbers

variable {now : Int} {s s' : NewsSession} {file file' file₀ : List (Option NewsRecord)}
  {e : NewsEvent} {a b : Archive}

structure Counts (s : NewsSession) (file : List (Option NewsRecord)) : Prop where
  highest : ∀ record ∈ recordsOf file, record.seq ≤ s.store.seq
  buffer : (s.store.buffer.map NewsRecord.seq).Nodup
  known : s.store.buffer ⊆ recordsOf file
  next : ∀ record, s.running = .appending record →
    record.seq = s.store.seq ∧ ∀ other ∈ recordsOf file, other.seq < record.seq
  landed : ∀ record, s.running = .appended record →
    record ∈ recordsOf file ∧ record.seq ∉ s.store.buffer.map NewsRecord.seq

theorem le_init_seq (opts : NewsOpts) (now : Int) (file : List (Option NewsRecord)) :
    ∀ record ∈ recordsOf file, record.seq ≤ (init opts now file).seq := by
  have hfold : ∀ record ∈ recordsOf file,
      record.seq ≤ (file.foldl (NewsStore.recover (opts.retentionCutoff now)) { opts }).seq := by
    induction file using List.reverseRecOn with
    | nil => rintro record ⟨⟩
    | append_singleton file line ih =>
      rw [List.foldl_append, List.foldl_cons, List.foldl_nil]
      intro record hrecord
      rw [recordsOf, List.filterMap_append, List.mem_append] at hrecord
      cases line with
      | none => exact ih record (hrecord.resolve_right (by rintro ⟨⟩))
      | some last =>
        rcases hrecord with hrecord | hrecord
        · exact (ih record hrecord).trans (le_max_left _ _)
        · obtain rfl := List.mem_singleton.mp hrecord
          exact le_max_right _ _
  exact hfold

theorem counts_init (opts : NewsOpts) (now : Int)
    (hfile : ((recordsOf file).map NewsRecord.seq).Nodup) :
    Counts { store := init opts now file } file := by
  have hbuffer := init_buffer opts now file
  have hsub := rtake_sublist opts.maxInMemory
    (sortRank NewsRecord.pubTs ((recordsOf file).filter (opts.retains now)))
  refine ⟨le_init_seq opts now file, ?_, ?_, by rintro _ ⟨⟩, by rintro _ ⟨⟩⟩
  · rw [hbuffer]
    refine (hsub.map _).nodup (((sortRank_perm _).map _).nodup_iff.mpr ?_)
    exact (List.filter_sublist.map _).nodup hfile
  rw [hbuffer]
  intro record hrecord
  exact List.mem_of_mem_filter (mem_sortRank.mp (hsub.subset hrecord))

/-- **Every move** keeps the numbers of the file different, and the store's knowledge of them. -/
theorem Counts.move (h : Counts s file) (hfile : ((recordsOf file).map NewsRecord.seq).Nodup)
    (hmove : Moves now s file e s' file') :
    Counts s' file' ∧ ((recordsOf file').map NewsRecord.seq).Nodup := by
  cases hmove with
  | ingest item => exact ⟨⟨h.highest, h.buffer, h.known, h.next, h.landed⟩, hfile⟩
  | skip hidle => exact ⟨⟨h.highest, h.buffer, h.known, h.next, h.landed⟩, hfile⟩
  | begin hidle hnew =>
    refine ⟨⟨fun record hrecord ↦ (h.highest record hrecord).trans (Nat.le_succ _), h.buffer,
      h.known, ?_, by rintro _ ⟨⟩⟩, hfile⟩
    rintro record ⟨⟩
    exact ⟨rfl, fun other hother ↦ Nat.lt_succ_of_le (h.highest other hother)⟩
  | land hrunning =>
    rename_i record
    obtain ⟨hseq, hnew⟩ := h.next record hrunning
    rw [recordsOf_concat]
    refine ⟨⟨fun other hother ↦ ?_, h.buffer, fun other hother ↦ ?_, by rintro _ ⟨⟩, ?_⟩, ?_⟩
    · rw [recordsOf_concat, List.mem_append, List.mem_singleton] at hother
      rcases hother with hother | rfl
      · exact h.highest other hother
      · exact hseq.le
    · rw [recordsOf_concat]
      exact List.mem_append_left _ (h.known hother)
    · rintro _ ⟨⟩
      rw [recordsOf_concat]
      refine ⟨List.mem_append_right _ (.head _), fun hmem ↦ ?_⟩
      obtain ⟨other, hother, hsame⟩ := List.mem_map.mp hmem
      exact absurd hsame (hnew other (h.known hother)).ne
    · rw [List.map_append, List.map_singleton, List.nodup_append]
      refine ⟨hfile, List.nodup_singleton _, ?_⟩
      rintro seq hmem seq' hmem' rfl
      obtain ⟨other, hother, rfl⟩ := List.mem_map.mp hmem
      exact absurd (List.mem_singleton.mp hmem') (hnew other hother).ne
  | reject hrunning =>
    exact ⟨⟨h.highest, h.buffer, h.known, by rintro _ ⟨⟩, by rintro _ ⟨⟩⟩, hfile⟩
  | resume hrunning =>
    rename_i record
    obtain ⟨hin, hnotin⟩ := h.landed record hrunning
    have hbuffer : (s.store.remember record).buffer =
        (s.store.buffer ++ [record]).rtake s.store.opts.maxInMemory :=
      trim_eq_rtake s.store.opts _
    refine ⟨⟨h.highest, ?_, ?_, by rintro _ ⟨⟩, by rintro _ ⟨⟩⟩, hfile⟩
    · rw [hbuffer]
      refine ((rtake_sublist _ _).map _).nodup ?_
      rw [List.map_append, List.map_singleton, List.nodup_append]
      refine ⟨h.buffer, List.nodup_singleton _, ?_⟩
      rintro seq hmem seq' hmem' rfl
      exact hnotin (List.mem_singleton.mp hmem' ▸ hmem)
    · rw [hbuffer]
      intro other hother
      rcases List.mem_append.mp ((rtake_sublist _ _).subset hother) with hother | hother
      · exact h.known hother
      · exact List.mem_singleton.mp hother ▸ hin

/-- **No number is given twice**, in any run, across restarts. -/
theorem numbered_once (hfile : ((recordsOf file₀).map NewsRecord.seq).Nodup)
    (h : Reach newsStep anyStep { now, file := file₀ } a) :
    ((recordsOf a.file).map NewsRecord.seq).Nodup ∧ ∀ s, a.session = some s → Counts s a.file := by
  refine h.invariant (I := fun a ↦ ((recordsOf a.file).map NewsRecord.seq).Nodup ∧
    ∀ s, a.session = some s → Counts s a.file) ⟨hfile, by rintro _ ⟨⟩⟩ ?_
  rintro a e b ⟨honce, hcounts⟩ - hstep
  obtain ⟨now', -, rfl⟩ | ⟨opts, rfl⟩ | rfl | ⟨s, s', file', hs, hmove, rfl⟩ := newsStep_cases hstep
  · exact ⟨honce, hcounts⟩
  · refine ⟨honce, ?_⟩
    rintro s ⟨⟩
    exact counts_init opts a.now honce
  · exact ⟨honce, by rintro _ ⟨⟩⟩
  · obtain ⟨hmoved, hnodup⟩ := (hcounts s hs).move honce hmove
    refine ⟨hnodup, ?_⟩
    rintro s ⟨⟩
    exact hmoved

end Numbers

/-- **An id that a search has found** is read, while its record is in memory, just when the record
is in reach. -/
theorem found_is_read (lib : NewsLibrary) {now₀ : Int} {file₀ : List (Option NewsRecord)}
    {a₁ a₂ : Archive} {s₁ s₂ : NewsSession} {call : SearchCall} {entry : RssResult}
    (hfile : ((recordsOf file₀).map NewsRecord.seq).Nodup)
    (h₁ : Reach newsStep anyStep { now := now₀, file := file₀ } a₁) (_ : a₁.session = some s₁)
    (hfound : entry ∈ call.results lib s₁.store a₁.now)
    (h₂ : Reach newsStep anyStep a₁ a₂) (hs₂ : a₂.session = some s₂) :
    ∃ record ∈ s₁.store.buffer, Shows lib entry (recordToNewsItem record) ∧
      (record ∈ s₂.store.buffer →
        (readRssExecute s₂.store a₂.now entry.id = .ok (recordToNewsItem record) ↔
          InReach s₂.store a₂.now record)) := by
  obtain ⟨record, hrecord, hshows⟩ := call.shows hfound
  refine ⟨record, hrecord, hshows, fun hmemory ↦ ?_⟩
  have hcounts := (numbered_once hfile (h₁.trans h₂)).2 s₂ hs₂
  have hid : entry.id = record.seq := hshows.id
  rw [hid]
  exact readRssExecute_iff hcounts.buffer hmemory

/-! ## An article of tomorrow -/

def sampleLibrary : NewsLibrary where
  regExp _ := none
  length text := text.length
  slice text start stop := ((text.take stop).drop start).toString
  stringify _ := "\x7b\x7d"
  toISOString time := ([(0, "1970-01-01T00:00:00.000Z"), (10, "1970-01-01T00:00:00.010Z"),
    (86400000, "1970-01-02T00:00:00.000Z")].lookup time).getD "Invalid Date"
  localeLe a b := a ≤ b
  parseDate text := [("1970-01-01", 0), ("1970-01-02", 86400000)].lookup text

def sampleWindow : SearchCall := .windowRss { pattern := "", «from» := "1970-01-01", «to» := "1970-01-02" }

def oneItem (pubTime : Int) : List NewsEvent :=
  [.create {}, .ingest (newsAt "a" pubTime), .begin, .land, .resume]

def oneItemStore (pubTime : Int) : NewsStore :=
  (((after newsStep { now := 20 } (oneItem pubTime)).session).map NewsSession.store).getD
    { opts := {} }

theorem sampleWindow_results {store : NewsStore} {item : NewsItem} (now : Int)
    (h : getNewsV2 store { endTime := 86400000, startTime := some 0, limit := some 5000 } = [item]) :
    ∃ entry ∈ sampleWindow.results sampleLibrary store now, entry.id = item.id := by
  have hstart : sampleLibrary.parseDate "1970-01-01" = some 0 := rfl
  have hend : sampleLibrary.parseDate "1970-01-02" = some 86400000 := rfl
  have hto : (some "1970-01-02").filter (· ≠ "") = some "1970-01-02" := rfl
  simp only [SearchCall.results, sampleWindow, windowRssExecute, hstart, hend, hto, h, windowRss,
    windowEntries, RssOptions.slice, RssOptions.passes, List.filterMap_cons, List.filterMap_nil,
    Option.all_none, if_true, Option.map_some, List.mergeSort_singleton, Option.getD_none]
  exact ⟨_, .head _, rfl⟩

theorem oneItem_reach (pubTime : Int) :
    Reach newsStep anyStep { now := 20, file := [] } (after newsStep { now := 20 } (oneItem pubTime)) :=
  .of_exec (oneItem pubTime) rfl

/-- An article that was published before it is looked for. -/
theorem found_is_read_oneItem : ∃ record ∈ (oneItemStore 10).buffer,
    (readRssExecute (oneItemStore 10) 20 1 = .ok (recordToNewsItem record) ↔
      InReach (oneItemStore 10) 20 record) := by
  have hitem : getNewsV2 (oneItemStore 10)
      { endTime := 86400000, startTime := some 0, limit := some 5000 } = [_] := rfl
  have hfile : ((recordsOf []).map NewsRecord.seq).Nodup := .nil
  obtain ⟨entry, hentry, hid⟩ := sampleWindow_results 20 hitem
  obtain ⟨record, hrecord, -, hread⟩ :=
    found_is_read sampleLibrary hfile (oneItem_reach 10) rfl hentry .refl rfl
  rw [hid] at hread
  exact ⟨record, hrecord, hread hrecord⟩

/-- **An article that is published tomorrow** is found, and is not read. -/
theorem tomorrow_not_read : ¬ ∀ (lib : NewsLibrary) (a : Archive) (s : NewsSession)
    (call : SearchCall) (entry : RssResult), Reach newsStep anyStep { now := 20, file := [] } a →
      a.session = some s → entry ∈ call.results lib s.store a.now →
      ∃ record ∈ s.store.buffer, Shows lib entry (recordToNewsItem record) ∧
        readRssExecute s.store a.now entry.id = .ok (recordToNewsItem record) := by
  intro hall
  have hitem : getNewsV2 (oneItemStore 86400000)
      { endTime := 86400000, startTime := some 0, limit := some 5000 } = [_] := rfl
  obtain ⟨entry, hentry, hid⟩ := sampleWindow_results 20 hitem
  obtain ⟨record, -, -, hread⟩ :=
    hall sampleLibrary _ _ sampleWindow entry (oneItem_reach 86400000) rfl hentry
  rw [hid] at hread
  cases hread

end OpenAlice.News
