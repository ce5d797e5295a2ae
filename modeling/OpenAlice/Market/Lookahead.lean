import OpenAlice.Market.Bars

/-!
# No lookahead

A request with an anchor should be answered with the most recent complete bars up to the
anchor and say whether they reach it.  Which rows get that far is decided in different places:
a vendor's rows are filtered, by completeness always and by day only if the anchor is given as
`end`; a broker's rows are not filtered.  So the answer is honest just when the rows that are
kept, and that truncation leaves, happen to be complete and not after the anchor
(`bars_honest_iff`).  Apart from that, `slice(-0)` keeps everything, and a window that would
open before the first `Date` makes the request fail.
-/

namespace OpenAlice.Market

open OpenAlice.Data

/-! ## What should hold -/

def GetBarsOpts.anchor (opts : GetBarsOpts) : Option Int := opts.end <|> opts.asOf

def GetBarsOpts.limit (opts : GetBarsOpts) : Nat := min (opts.count.getD maxBars) maxBars

def upTo {N : Type} (anchor : Int) (bar : OhlcvBar N) : Bool :=
  isFullBar bar && decide (bar.date.day ≤ anchor)

inductive RawBars (N : Type) where
  | vendor (rows : List (OhlcvBar N))
  | uta (rows : List WireBar)

variable {N : Type} (deps : BarServiceDeps N) (opts : GetBarsOpts) (now : Int)

def RawBars.bars : RawBars N → List (OhlcvBar N)
  | .vendor rows => rows
  | .uta rows => utaRows deps opts rows

/-- **The source that a reference names returns the raw list**, to the request that it gets if
it gets one. -/
inductive Returns : BarSourceRef → RawBars N → Prop
  | symbol {symbol : String} {assetClass : AssetClass} {rows : List (OhlcvBar N)}
      (hrows : ∀ start, startDateFor opts now = .ok start →
        askVendor deps (deps.vendorProviders assetClass) assetClass symbol opts start = .ok rows) :
      Returns (.symbol symbol assetClass) (.vendor rows)
  | vendor {barId : String} {assetClass : AssetClass} {parsed : BarRef}
      {rows : List (OhlcvBar N)} (hparsed : parseBarId barId = some parsed)
      (hhas : deps.utaManager.has parsed.sourceId = .ok false)
      (hrows : ∀ start, startDateFor opts now = .ok start →
        askVendor deps parsed.sourceId assetClass parsed.nativeSymbol opts start = .ok rows) :
      Returns (.barId barId (some assetClass)) (.vendor rows)
  | uta {barId : String} {assetClass : Option AssetClass} {parsed : BarRef}
      {getHistorical : String → BarParams → Except String (List WireBar)} {cap : BarCapability}
      {rows : List WireBar} (hparsed : parseBarId barId = some parsed)
      (hhas : deps.utaManager.has parsed.sourceId = .ok true)
      (hget : deps.utaManager.get parsed.sourceId = .ok (some getHistorical))
      (hcap : effectiveCap deps parsed.sourceId = .ok cap)
      (hrows : ∀ params, utaParams opts now = .ok params →
        getHistorical barId params = .ok rows) :
      Returns (.barId barId assetClass) (.uta rows)

/-- **An honest answer**: no bar after the anchor, ascending dates, the most recent complete
bars that the source returned, and freshness that says whether a weekday is missing. -/
structure Honest (anchor : Int) (raw : List (OhlcvBar N)) (r : BarsResult N) : Prop where
  notAfter : ∀ bar ∈ r.bars, bar.date.day ≤ anchor
  ascending : Ranked OhlcvBar.rank r.bars
  recent : r.bars = (sortRank OhlcvBar.rank (raw.filter (upTo anchor))).rtake opts.limit
  fresh : ∀ last, r.bars.getLast? = some last → (r.meta.isLatestActual = some true ↔
    ∀ day, last.date.day < day → day ≤ anchor → isWeekday day = false)

/-! ## When it holds -/

def RawBars.opens : RawBars N → Prop
  | .vendor _ => opts.start.isSome = true ∨ minTime ≤ windowStart opts now
  | .uta _ =>
    opts.start.isSome = true ∨ opts.count = none ∨ minTime ≤ windowStart opts now

def RawBars.kept : RawBars N → List (OhlcvBar N)
  | .vendor rows => vendorRows opts rows
  | .uta rows => utaRows deps opts rows

/-! ## Truncation -/

variable {deps opts now} {anchor : Int} {data : List (OhlcvBar N)}

theorem ranked_rtake (n : Nat) (l : List (OhlcvBar N)) :
    Ranked OhlcvBar.rank ((sortRank OhlcvBar.rank l).rtake n) :=
  (ranked_sortRank l).sublist (rtake_sublist n _)

theorem capped_eq (l : List (OhlcvBar N)) :
    (if l.length > maxBars then sliceLast maxBars l else l) = l.rtake maxBars := by
  by_cases h : l.length > maxBars
  · rw [if_pos h, sliceLast, if_neg (by decide)]
  · rw [if_neg h, rtake_of_length_le (Nat.le_of_not_lt h)]

theorem rtake_rtake {α : Type} (m n : Nat) (l : List α) :
    (l.rtake n).rtake m = l.rtake (min m n) := by
  rw [List.rtake, length_rtake, List.rtake, List.drop_drop, List.rtake]
  congr 1
  omega

/-- **What `finalize` keeps**: the last bars by date, as many as the request asks for, unless it
asks for none. -/
theorem finalize_eq (data : List (OhlcvBar N)) (count : Option Nat) :
    finalize data count = (sortRank OhlcvBar.rank data).rtake
      (if count = some 0 then maxBars else min (count.getD maxBars) maxBars) := by
  unfold finalize
  simp only [capped_eq]
  generalize sortRank OhlcvBar.rank data = sorted
  cases count with
  | none => rfl
  | some count =>
    have hlength : (sorted.rtake maxBars).length ≤ maxBars := by
      rw [length_rtake]
      exact Nat.min_le_left _ _
    by_cases hzero : count = 0
    · subst hzero
      rw [if_pos rfl]
      show (if _ then sliceLast 0 _ else _) = _
      rw [sliceLast, if_pos rfl, ite_self]
    rw [if_neg fun h ↦ hzero (Option.some.inj h), Option.getD_some, ← rtake_rtake]
    show (if _ then sliceLast count _ else _) = _
    by_cases hlong : (sorted.rtake maxBars).length > count
    · rw [if_pos hlong, sliceLast, if_neg hzero]
    · rw [if_neg hlong, rtake_of_length_le (n := count) (Nat.le_of_not_lt hlong)]

/-- The kept bars are the most recent of the chosen ones just when every one of them is
chosen, and bars were asked for if there are any. -/
theorem finalize_eq_filter_iff (p : OhlcvBar N → Bool) :
    finalize data opts.count = (sortRank OhlcvBar.rank (data.filter p)).rtake opts.limit ↔
      (opts.count ≠ some 0 ∨ data = []) ∧
        ∀ bar ∈ (sortRank OhlcvBar.rank data).rtake opts.limit, p bar = true := by
  rw [finalize_eq, ← rtake_filter_eq_iff]
  by_cases hzero : opts.count = some 0
  · have hlimit : opts.limit = 0 := by rw [GetBarsOpts.limit, hzero]; rfl
    have hnil (l : List (OhlcvBar N)) : l.rtake 0 = [] := by
      rw [List.rtake, Nat.sub_zero, List.drop_length]
    have hlength : ((sortRank OhlcvBar.rank data).rtake maxBars).length = 0 ↔ data.length = 0 := by
      rw [length_rtake, length_sortRank, Nat.min_eq_zero_iff]
      exact or_iff_right (by decide)
    rw [if_pos hzero, hlimit, hnil, hnil, ← List.length_eq_zero_iff, hlength,
      List.length_eq_zero_iff]
    exact ⟨fun h ↦ ⟨.inr h, rfl⟩, fun h ↦ h.1.resolve_left (absurd hzero)⟩
  · rw [if_neg hzero, ← GetBarsOpts.limit]
    exact ⟨fun h ↦ ⟨.inl hzero, h.symm⟩, fun h ↦ h.2.symm⟩

/-! ## Freshness -/

theorem countWeekdays_eq_zero_iff (n : Nat) (fromDay : Int) : countWeekdays fromDay n = 0 ↔
      ∀ day, fromDay < day → day ≤ fromDay + n → isWeekday day = false := by
  induction n generalizing fromDay with
  | zero =>
    refine ⟨fun _ day hlt hle ↦ ?_, fun _ ↦ rfl⟩
    omega
  | succ n ih =>
    have hstep : countWeekdays fromDay (n + 1) = 0 ↔
        isWeekday (fromDay + 1) = false ∧ countWeekdays (fromDay + 1) n = 0 := by
      rw [countWeekdays, Nat.add_eq_zero_iff]
      cases isWeekday (fromDay + 1) with
      | true => exact ⟨fun h ↦ absurd h.1 (by decide), fun h ↦ absurd h.1 (by decide)⟩
      | false => exact ⟨fun h ↦ ⟨rfl, h.2⟩, fun h ↦ ⟨rfl, h.2⟩⟩
    rw [hstep, ih]
    constructor
    · rintro ⟨hfirst, hrest⟩ day hlt hle
      rcases lt_or_ge (fromDay + 1) day with hlater | hnext
      · exact hrest day hlater (by omega)
      · rw [show day = fromDay + 1 by omega]
        exact hfirst
    · intro h
      exact ⟨h _ (by omega) (by omega), fun day hlt hle ↦ h day (by omega) (by omega)⟩

theorem tradingDaysBetween_eq_zero_iff (fromDay toDay : Int) :
    tradingDaysBetween fromDay toDay = 0 ↔
      ∀ day, fromDay < day → day ≤ toDay → isWeekday day = false := by
  rw [tradingDaysBetween, countWeekdays_eq_zero_iff]
  refine forall_congr' fun day ↦ forall_congr' fun hlt ↦ ?_
  constructor
  · exact fun h hle ↦ h (by omega)
  · exact fun h hle ↦ h (by omega)

theorem computeFreshness_fresh (hanchor : opts.anchor = some anchor) (m : BarMeta)
    (last : BarDate) : (computeFreshness m (some last) opts now).isLatestActual = some true ↔
      ∀ day, last.day < day → day ≤ anchor → isWeekday day = false := by
  rw [← tradingDaysBetween_eq_zero_iff]
  have hgetD : (opts.end <|> opts.asOf).getD (now / msPerDay) = anchor := by
    rw [show (opts.end <|> opts.asOf) = some anchor from hanchor]
    rfl
  show some (tradingDaysBetween last.day ((opts.end <|> opts.asOf).getD (now / msPerDay)) == 0) =
    some true ↔ _
  rw [hgetD, Option.some_inj, beq_iff_eq]

/-! ## The answer -/

variable (opts now) in
structure Answers (kept : List (OhlcvBar N)) (r : BarsResult N) : Prop where
  bars : r.bars = finalize kept opts.count
  «meta» : ∃ m, r.meta = computeFreshness m (r.bars.getLast?.map OhlcvBar.date) opts now

theorem startDateFor_ok (h : opts.start.isSome = true ∨ minTime ≤ windowStart opts now) :
    ∃ start, startDateFor opts now = .ok start := by
  rw [startDateFor]
  cases hstart : opts.start with
  | some start => exact ⟨start, rfl⟩
  | none =>
    rw [hstart] at h
    exact ⟨_, if_neg (not_lt_of_ge (h.resolve_left Bool.false_ne_true))⟩

theorem startDateFor_error (h : ¬ (opts.start.isSome = true ∨ minTime ≤ windowStart opts now)) :
    startDateFor opts now = .error "Invalid time value" := by
  rw [not_or, Option.not_isSome_iff_eq_none] at h
  rw [startDateFor, h.1]
  exact if_pos (lt_of_not_ge h.2)

theorem getVendorBars_cases {provider symbol : String} {assetClass : AssetClass}
    {rows : List (OhlcvBar N)}
    (hrows : ∀ start, startDateFor opts now = .ok start →
      askVendor deps provider assetClass symbol opts start = .ok rows) :
    (opts.start.isSome = true ∨ minTime ≤ windowStart opts now) ∧
        getVendorBars deps provider assetClass symbol opts now =
          .ok (vendorResult provider symbol opts now rows) ∨
      ¬ (opts.start.isSome = true ∨ minTime ≤ windowStart opts now) ∧
        ∃ e, getVendorBars deps provider assetClass symbol opts now = .error e := by
  by_cases h : opts.start.isSome = true ∨ minTime ≤ windowStart opts now
  · obtain ⟨start, hstart⟩ := startDateFor_ok h
    refine .inl ⟨h, ?_⟩
    rw [getVendorBars, hstart]
    show (askVendor deps provider assetClass symbol opts start).bind _ = _
    rw [hrows start hstart]
    rfl
  · refine .inr ⟨h, "Invalid time value", ?_⟩
    rw [getVendorBars, startDateFor_error h]
    rfl

theorem utaParams_ok (h : opts.start.isSome = true ∨ opts.count = none ∨
    minTime ≤ windowStart opts now) : ∃ params, utaParams opts now = .ok params := by
  rw [utaParams]
  cases hstart : opts.start with
  | some start => exact ⟨_, rfl⟩
  | none =>
    cases hcount : opts.count with
    | none => exact ⟨_, rfl⟩
    | some count =>
      rw [hstart, hcount] at h
      have hwindow := (h.resolve_left Bool.false_ne_true).resolve_left (Option.some_ne_none _)
      obtain ⟨start, hok⟩ := startDateFor_ok (.inr hwindow)
      rw [hok]
      exact ⟨_, rfl⟩

theorem utaParams_error (h : ¬ (opts.start.isSome = true ∨ opts.count = none ∨
    minTime ≤ windowStart opts now)) : utaParams opts now = .error "Invalid time value" := by
  rw [not_or, not_or, Option.not_isSome_iff_eq_none] at h
  obtain ⟨hstart, hcount, hwindow⟩ := h
  have herror : startDateFor opts now = .error "Invalid time value" :=
    startDateFor_error (not_or.mpr ⟨by rw [hstart]; exact Bool.false_ne_true, hwindow⟩)
  obtain ⟨count, hcount⟩ := Option.ne_none_iff_exists'.mp hcount
  rw [utaParams, hstart, hcount, herror]
  rfl

/-- **What a request gets**: the kept rows, sorted and truncated, or an error if its window
cannot be opened. -/
theorem getBars_cases {ref : BarSourceRef} {raw : RawBars N} (h : Returns deps opts now ref raw) :
    raw.opens opts now ∧
        (∃ r, getBars deps ref opts now = .ok r ∧ Answers opts now (raw.kept deps opts) r) ∨
      ¬ raw.opens opts now ∧ ∃ e, getBars deps ref opts now = .error e := by
  cases h with
  | symbol hrows =>
    rcases getVendorBars_cases hrows with ⟨hopens, heq⟩ | ⟨hopens, herror⟩
    · exact .inl ⟨hopens, _, heq, rfl, _, rfl⟩
    · exact .inr ⟨hopens, herror⟩
  | @vendor barId assetClass parsed rows hparsed hhas hrows =>
    have hget : getBars deps (.barId barId (some assetClass)) opts now =
        getVendorBars deps parsed.sourceId assetClass parsed.nativeSymbol opts now := by
      simp only [getBars, hparsed, hhas]
      rfl
    rcases getVendorBars_cases hrows with ⟨hopens, heq⟩ | ⟨hopens, herror⟩
    · exact .inl ⟨hopens, _, hget.trans heq, rfl, _, rfl⟩
    · exact .inr ⟨hopens, by rw [hget]; exact herror⟩
  | @uta barId assetClass parsed getHistorical cap rows hparsed hhas haccount hcap hrows =>
    have hget : getBars deps (.barId barId assetClass) opts now =
        (utaParams opts now).bind fun params ↦ (getHistorical barId params).bind fun wireBars ↦
          .ok (utaResult deps parsed.sourceId barId cap opts now wireBars) := by
      simp only [getBars, hparsed, hhas, getUtaBars, haccount, hcap]
      rfl
    rw [hget]
    by_cases hopens : (RawBars.uta rows : RawBars N).opens opts now
    · obtain ⟨params, hparams⟩ := utaParams_ok hopens
      refine .inl ⟨hopens, utaResult deps parsed.sourceId barId cap opts now rows, ?_, rfl, _, rfl⟩
      rw [hparams, Except.bind, hrows params hparams]
      rfl
    · rw [utaParams_error hopens]
      exact .inr ⟨hopens, _, rfl⟩

theorem filter_kept (hanchor : opts.anchor = some anchor) (raw : RawBars N) :
    (raw.kept deps opts).filter (upTo anchor) = (raw.bars deps opts).filter (upTo anchor) := by
  cases raw with
  | uta rows => rfl
  | vendor rows =>
    show (vendorRows opts rows).filter (upTo anchor) = rows.filter (upTo anchor)
    rw [vendorRows]
    cases hend : opts.end with
    | none =>
      show (rows.filter isFullBar).filter (upTo anchor) = _
      rw [List.filter_filter]
      refine List.filter_congr fun b _ ↦ ?_
      rw [upTo, Bool.and_right_comm, Bool.and_self]
    | some end_date =>
      have heq : end_date = anchor := by
        rw [GetBarsOpts.anchor, hend] at hanchor
        exact Option.some.inj hanchor
      subst heq
      show ((rows.filter isFullBar).filter _).filter (upTo end_date) = _
      rw [List.filter_filter, List.filter_filter]
      refine List.filter_congr fun b _ ↦ ?_
      rw [upTo]
      cases isFullBar b <;> cases decide (b.date.day ≤ end_date) <;> rfl

theorem Answers.honest_iff (hanchor : opts.anchor = some anchor) {raw : RawBars N}
    {r : BarsResult N} (h : Answers opts now (raw.kept deps opts) r) :
    Honest opts anchor (raw.bars deps opts) r ↔ finalize (raw.kept deps opts) opts.count =
      (sortRank OhlcvBar.rank ((raw.kept deps opts).filter (upTo anchor))).rtake opts.limit := by
  rw [filter_kept hanchor, ← h.bars]
  refine ⟨Honest.recent, fun hrecent ↦ ⟨?_, ?_, hrecent, ?_⟩⟩
  · intro bar hbar
    rw [hrecent] at hbar
    have hchosen := List.of_mem_filter (mem_sortRank.mp ((rtake_sublist _ _).subset hbar))
    exact of_decide_eq_true (Bool.and_eq_true_iff.mp hchosen).2
  · rw [hrecent]
    exact ranked_rtake _ _
  · intro last hlast
    obtain ⟨m, hmeta⟩ := h.meta
    rw [hmeta, hlast]
    exact computeFreshness_fresh hanchor m last.date

def sampleBar (day : Int) (price : Nat) : OhlcvBar Nat where
  date := { day }
  «open» := some price
  high := some price
  low := some price
  close := some price
  volume := none

/-- A Friday, the Thursday before it, and the Monday after it. -/
def sampleRows : List (OhlcvBar Nat) := [sampleBar 19730 3, sampleBar 19726 1, sampleBar 19727 2]

/-- A vendor of stocks that applies `end_date`, as far as it is given one. -/
def sampleDeps : BarServiceDeps Nat where
  equityClient := fun q ↦ .ok <| match q.end_date with
    | some end_date => sampleRows.filter fun b ↦ decide (b.date.day ≤ end_date)
    | none => sampleRows
  cryptoClient := fun _ ↦ .ok []
  currencyClient := fun _ ↦ .ok []
  commodityClient := fun _ ↦ .ok []
  utaManager := { has := fun _ ↦ .ok false, get := fun _ ↦ .ok none, getBarCapabilities := none }
  vendorProviders := fun _ ↦ "yfinance"
  number := String.toNat?

/-- The two most recent bars of a stock at the Friday, the anchor given as `end`. -/
def sampleEnd : GetBarsOpts := { interval := "1d", count := some 2, «end» := some 19727 }

/-- The same request, the anchor given as `asOf`. -/
def sampleAsOf : GetBarsOpts := { interval := "1d", count := some 2, asOf := some 19727 }

end OpenAlice.Market
