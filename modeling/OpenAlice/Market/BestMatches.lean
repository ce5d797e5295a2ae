import OpenAlice.Market.SymbolSearch

/-!
# The best matches of a symbol search

A search should give the best of all that matches.  It cuts the hits of the index and of the
catalog to the limit before they are ranked, so that a better match behind so many worse ones is
lost; and a vendor's row that only a lost entry repeats comes in instead.

`contenders` are all that either list ranks, each marked with what keeps it from the other list.
Both results are the first of one ranking of the contenders, so that they are the same when the
first are in both lists, and only then if the rows are told apart (`bestMatches_iff`).
-/

namespace OpenAlice.Market

open OpenAlice.Data

variable {E : Type} (js : TextEngine) (deps : MarketSearchDeps E)

/-! ## What a search should give -/

def indexHits (q : String) : List (SymbolEntry E) :=
  deps.symbolIndex.filter (SymbolEntry.matches js q)

def catalogHits (q : String) : List (CommodityCatalogEntry E) :=
  deps.commodityCatalog.filter (CommodityCatalogEntry.matches js q)

def candidates (q : String) : List (MarketSearchResult E) :=
  merge js deps (indexHits js deps q) (catalogHits js deps q)

def bestMatches (query : String) (limit : Option ℚ) : List (MarketSearchResult E) :=
  let q := js.trim query
  if q = "" then [] else (ranked js q (candidates js deps q)).take (boundedLimit limit)

def otherExact [DecidableEq E] (q : String) (entry : SymbolEntry E) : List (MarketSearchResult E) :=
  ((candidates js deps q).filter fun r ↦ matchScore js q r = 100).erase (equityResult deps entry)

/-- **A search gives the best matches**: the first of all that matches, ranked; and with them an
entry of the index whose symbol is the query, when there are fewer other exact matches than fit. -/
structure GivesBest [DecidableEq E] (query : String) (limit : Option ℚ) : Prop where
  best : aggregateSymbolSearch js deps query limit = bestMatches js deps query limit
  exact : js.trim query ≠ "" → ∀ entry ∈ deps.symbolIndex,
    js.toLowerCase entry.symbol = js.toLowerCase (js.trim query) →
    (otherExact js deps (js.trim query) entry).length < boundedLimit limit →
    equityResult deps entry ∈ aggregateSymbolSearch js deps query limit

/-! ## Contenders -/

/-- A result that one of the lists ranks: `cut` if the search cuts it off before that, `repeated` if
it repeats what is cut off, and nothing else. -/
structure Contender (E : Type) where
  result : MarketSearchResult E
  cut : Bool := false
  repeated : Bool := false

def hitKeys (entries : List (SymbolEntry E)) : List String :=
  (entries.map (equityResult deps)).map (equityKey js)

def contenders (q : String) (limit : Nat) : List (Contender E) :=
  let equity := indexHits js deps q
  let commodity := catalogHits js deps q
  (equity.take limit).map (fun entry ↦ { result := equityResult deps entry }) ++
    (equity.drop limit).map (fun entry ↦ { result := equityResult deps entry, cut := true }) ++
    (equityOnlineResults js deps (hitKeys js deps (equity.take limit))).map (fun r ↦
      { result := r
        repeated := decide (equityKey js r ∈ hitKeys js deps (equity.drop limit)) }) ++
    (cryptoResults deps ++ currencyResults deps).map (fun r ↦ { result := r }) ++
    (commodity.take limit).map (fun entry ↦ { result := commodityResult entry }) ++
    (commodity.drop limit).map (fun entry ↦ { result := commodityResult entry, cut := true })

variable {js deps} {q query : String} {limit : Option ℚ}

/-! ### The two lists -/

theorem searchLoop_eq {α : Type} {test : α → Bool} {n : Nat} {results : List α}
    (h : results.length < n) (entries : List α) :
    searchLoop test n results entries =
      results ++ (entries.filter test).take (n - results.length) := by
  induction entries generalizing results with
  | nil => rw [searchLoop, List.filter_nil, List.take_nil, List.append_nil]
  | cons entry entries ih =>
    rw [searchLoop]
    cases htest : test entry with
    | false =>
      rw [if_neg Bool.false_ne_true, ih h, List.filter_cons_of_neg (by rw [htest]; decide)]
    | true =>
      obtain ⟨m, hm⟩ : ∃ m, n - results.length = m + 1 := ⟨n - results.length - 1, by omega⟩
      rw [if_pos rfl, List.filter_cons_of_pos htest, hm, List.take_succ_cons]
      by_cases hfull : n ≤ (results ++ [entry]).length
      · rw [if_pos hfull]
        rw [List.length_append, List.length_singleton] at hfull
        have hzero : m = 0 := by omega
        rw [hzero, List.take_zero]
      rw [if_neg hfull, ih (not_le.mp hfull), List.length_append, List.length_singleton,
        List.append_assoc, List.singleton_append]
      congr 3
      omega

theorem boundedLimit_pos (limit : Option ℚ) : 0 < boundedLimit limit := by
  rw [boundedLimit]
  omega

theorem aggregateSymbolSearch_eq (h : js.trim query ≠ "") :
    aggregateSymbolSearch js deps query limit = (ranked js (js.trim query) (merge js deps
        ((indexHits js deps (js.trim query)).take (boundedLimit limit))
        ((catalogHits js deps (js.trim query)).take (boundedLimit limit)))).take
          (boundedLimit limit) := by
  have hpos : ([] : List (SymbolEntry E)).length < boundedLimit limit := boundedLimit_pos limit
  have hpos' : ([] : List (CommodityCatalogEntry E)).length < boundedLimit limit :=
    boundedLimit_pos limit
  rw [aggregateSymbolSearch, if_neg h]
  show (ranked js (js.trim query) (merge js deps (searchLoop _ _ [] _)
    (searchLoop _ _ [] _))).take _ = _
  rw [searchLoop_eq hpos, searchLoop_eq hpos']
  rfl

/-- What has been seen besides changes nothing but that its keys are left out. -/
theorem foldl_addOnline (js : TextEngine) (cutKeys : List String)
    (rows : List (MarketSearchResult E)) {state state' : List String × List (MarketSearchResult E)}
    (hseen : ∀ key, key ∈ state'.1 ↔ key ∈ state.1 ∨ key ∈ cutKeys)
    (hfound : state'.2 = state.2.filter fun r ↦ !decide (equityKey js r ∈ cutKeys)) :
    (rows.foldl (addOnline js) state').2 =
      (rows.foldl (addOnline js) state).2.filter fun r ↦ !decide (equityKey js r ∈ cutKeys) := by
  induction rows generalizing state state' with
  | nil => exact hfound
  | cons r rows ih =>
    rw [List.foldl_cons, List.foldl_cons]
    by_cases hout : r.symbol.getD "" = "" ∨ equityKey js r ∈ state.1
    · have hout' : r.symbol.getD "" = "" ∨ equityKey js r ∈ state'.1 :=
        hout.imp_right fun hmem ↦ (hseen _).mpr (.inl hmem)
      rw [addOnline, if_pos hout', addOnline, if_pos hout]
      exact ih hseen hfound
    rw [addOnline.eq_1 js state, if_neg hout]
    by_cases hcut : equityKey js r ∈ cutKeys
    · rw [addOnline, if_pos (.inr ((hseen _).mpr (.inr hcut)))]
      refine ih (fun key ↦ ?_) ?_
      · rw [hseen, List.mem_cons, or_assoc]
        constructor
        · exact .inr
        rintro (rfl | hkey)
        · exact .inr hcut
        · exact hkey
      · rw [List.filter_append, List.filter_singleton, hfound]
        simp [hcut]
    · have hin : ¬ (r.symbol.getD "" = "" ∨ equityKey js r ∈ state'.1) := by
        rw [hseen]
        tauto
      rw [addOnline, if_neg hin]
      refine ih (fun key ↦ ?_) ?_
      · rw [List.mem_cons, List.mem_cons, hseen, or_assoc]
      · rw [List.filter_append, List.filter_singleton, hfound]
        simp [hcut]

theorem contenders_uncut (q : String) (n : Nat) :
    ((contenders js deps q n).filter fun c ↦ !c.cut).map Contender.result =
      merge js deps ((indexHits js deps q).take n) ((catalogHits js deps q).take n) := by
  simp only [contenders, merge, hitKeys, List.filter_append, List.filter_map, List.map_append,
    List.map_map, Function.comp_def, Bool.not_false, Bool.not_true, List.filter_true,
    List.filter_false, List.map_nil, List.append_nil, List.nil_append, List.map_id',
    List.append_assoc]

theorem contenders_unrepeated (q : String) (n : Nat) :
    ((contenders js deps q n).filter fun c ↦ !c.repeated).map Contender.result =
      candidates js deps q := by
  have hkeys : ∀ key, key ∈ hitKeys js deps (indexHits js deps q) ↔
      key ∈ hitKeys js deps ((indexHits js deps q).take n) ∨
        key ∈ hitKeys js deps ((indexHits js deps q).drop n) := by
    intro key
    rw [← List.mem_append, hitKeys, hitKeys, hitKeys, ← List.map_append, ← List.map_append,
      List.take_append_drop]
  have honline := @foldl_addOnline E js (hitKeys js deps ((indexHits js deps q).drop n))
    (onlineRows deps) (hitKeys js deps ((indexHits js deps q).take n), [])
    (hitKeys js deps (indexHits js deps q), []) hkeys rfl
  have hequity : (indexHits js deps q).map (equityResult deps) =
      ((indexHits js deps q).take n).map (equityResult deps) ++
        ((indexHits js deps q).drop n).map (equityResult deps) := by
    rw [← List.map_append, List.take_append_drop]
  have hcommodity : (catalogHits js deps q).map commodityResult =
      ((catalogHits js deps q).take n).map commodityResult ++
        ((catalogHits js deps q).drop n).map commodityResult := by
    rw [← List.map_append, List.take_append_drop]
  have hmerge : candidates js deps q = (indexHits js deps q).map (equityResult deps) ++
      ((onlineRows deps).foldl (addOnline js) (hitKeys js deps (indexHits js deps q), [])).2 ++
      cryptoResults deps ++ currencyResults deps ++
      (catalogHits js deps q).map commodityResult := rfl
  rw [hmerge, honline, hequity, hcommodity]
  simp only [contenders, equityOnlineResults, List.filter_append, List.filter_map, List.map_append,
    List.map_map, Function.comp_def, Bool.not_false, List.filter_true, List.map_id',
    List.append_assoc]

theorem uncut_or_unrepeated {n : Nat} : ∀ c ∈ contenders js deps q n,
    (!c.cut) = true ∨ (!c.repeated) = true := by
  intro c hc
  rw [contenders] at hc
  simp only [List.mem_append, List.mem_map] at hc
  rcases hc with ((((⟨_, -, rfl⟩ | ⟨_, -, rfl⟩) | ⟨_, -, rfl⟩) | ⟨_, -, rfl⟩) | ⟨_, -, rfl⟩) |
    ⟨_, -, rfl⟩
  · exact .inl rfl
  · exact .inr rfl
  · exact .inl rfl
  · exact .inl rfl
  · exact .inl rfl
  · exact .inr rfl

/-! ### The first of them -/

def rankedContenders (js : TextEngine) (deps : MarketSearchDeps E) (q : String) (n : Nat) :
    List (Contender E) :=
  sortRank (fun c ↦ -(matchScore js q c.result : Int)) (contenders js deps q n)

theorem ranked_filter (q : String) (n : Nat) (p : Contender E → Bool) :
    ranked js q (((contenders js deps q n).filter p).map Contender.result) =
      ((rankedContenders js deps q n).filter p).map Contender.result := by
  rw [ranked, rankedContenders, filter_sortRank]
  exact (map_sortRank Contender.result _).symm

theorem aggregateSymbolSearch_contenders (h : js.trim query ≠ "") :
    aggregateSymbolSearch js deps query limit =
      (((rankedContenders js deps (js.trim query) (boundedLimit limit)).filter
        fun c ↦ !c.cut).take (boundedLimit limit)).map Contender.result := by
  rw [aggregateSymbolSearch_eq h, ← contenders_uncut, ranked_filter, List.map_take]

theorem bestMatches_contenders (h : js.trim query ≠ "") : bestMatches js deps query limit =
      (((rankedContenders js deps (js.trim query) (boundedLimit limit)).filter
        fun c ↦ !c.repeated).take (boundedLimit limit)).map Contender.result := by
  rw [bestMatches, if_neg h, ← contenders_unrepeated (js.trim query) (boundedLimit limit),
    ranked_filter, List.map_take]

/-! ## When the best are given -/

def FirstInBoth (js : TextEngine) (deps : MarketSearchDeps E) (q : String) (n : Nat) : Prop :=
  ∀ c ∈ (rankedContenders js deps q n).take n, c.cut = false ∧ c.repeated = false

def ToldApart (js : TextEngine) (deps : MarketSearchDeps E) (q : String) (n : Nat) : Prop :=
  (deps.symbolIndex.map (equityResult deps) ++
    (equityOnlineResults js deps (hitKeys js deps ((indexHits js deps q).take n)) ++
      (cryptoResults deps ++ currencyResults deps) ++
      deps.commodityCatalog.map commodityResult)).Nodup

theorem best_of_firstInBoth
    (h : js.trim query ≠ "" → FirstInBoth js deps (js.trim query) (boundedLimit limit)) :
    aggregateSymbolSearch js deps query limit = bestMatches js deps query limit := by
  by_cases hquery : js.trim query = ""
  · rw [aggregateSymbolSearch, bestMatches, if_pos hquery, if_pos hquery]
  have hfirst := h hquery
  rw [aggregateSymbolSearch_contenders hquery, bestMatches_contenders hquery,
    take_filter_of_forall fun c hc ↦ by rw [(hfirst c hc).1, Bool.not_false],
    take_filter_of_forall fun c hc ↦ by rw [(hfirst c hc).2, Bool.not_false]]

theorem contenders_result (q : String) (n : Nat) : (contenders js deps q n).map Contender.result =
      (indexHits js deps q).map (equityResult deps) ++
        (equityOnlineResults js deps (hitKeys js deps ((indexHits js deps q).take n)) ++
          (cryptoResults deps ++ currencyResults deps) ++
          (catalogHits js deps q).map commodityResult) := by
  conv_rhs =>
    rw [← List.take_append_drop n ((indexHits js deps q).map (equityResult deps)),
      ← List.take_append_drop n ((catalogHits js deps q).map commodityResult),
      ← List.map_take, ← List.map_take, ← List.map_drop, ← List.map_drop]
  simp only [contenders, List.map_append, List.map_map, Function.comp_def, List.map_id',
    List.append_assoc]

theorem ToldApart.contenders {n : Nat} (h : ToldApart js deps q n) :
    ((contenders js deps q n).map Contender.result).Nodup := by
  have hequity : ((indexHits js deps q).map (equityResult deps)).Sublist
      (deps.symbolIndex.map (equityResult deps)) := List.filter_sublist.map _
  have hcommodity : ((catalogHits js deps q).map commodityResult).Sublist
      (deps.commodityCatalog.map commodityResult) := List.filter_sublist.map _
  rw [contenders_result]
  exact h.sublist (hequity.append ((List.Sublist.refl _).append hcommodity))

theorem firstInBoth_of_best (hquery : js.trim query ≠ "")
    (hapart : ToldApart js deps (js.trim query) (boundedLimit limit))
    (h : aggregateSymbolSearch js deps query limit = bestMatches js deps query limit) :
    FirstInBoth js deps (js.trim query) (boundedLimit limit) := by
  have hperm : (rankedContenders js deps (js.trim query) (boundedLimit limit)).Perm
      (contenders js deps (js.trim query) (boundedLimit limit)) := sortRank_perm _
  have hnodup : ((rankedContenders js deps (js.trim query) (boundedLimit limit)).map
      Contender.result).Nodup := (hperm.map _).nodup_iff.mpr hapart.contenders
  rw [aggregateSymbolSearch_contenders hquery, bestMatches_contenders hquery] at h
  intro c hc
  have hboth := forall_of_take_filter_eq hnodup
    (fun c hc ↦ uncut_or_unrepeated c (hperm.mem_iff.mp hc)) h c hc
  exact ⟨by simpa using hboth.1, by simpa using hboth.2⟩

/-! ### Exact matches -/

theorem matchScore_le (js : TextEngine) (q : String) (r : MarketSearchResult E) :
    matchScore js q r ≤ 100 := by
  rw [matchScore]
  split_ifs <;> decide

theorem matchScore_exact {entry : SymbolEntry E}
    (h : js.toLowerCase entry.symbol = js.toLowerCase q) :
    matchScore js q (equityResult deps entry) = 100 := by
  rw [matchScore]
  exact if_pos (.inl h)

theorem mem_take_ranked {r : MarketSearchResult E} {all : List (MarketSearchResult E)} {n : Nat}
    (hmem : r ∈ all) (hexact : matchScore js q r = 100)
    (hroom : (all.filter fun r ↦ matchScore js q r = 100).length ≤ n) :
    r ∈ (ranked js q all).take n := by
  have hranked : Ranked (fun r ↦ -(matchScore js q r : Int))
      (sortRank (fun r ↦ -(matchScore js q r : Int)) all) := ranked_sortRank all
  have hcut := hranked.cut (-100)
  have hnone : (sortRank (fun r ↦ -(matchScore js q r : Int)) all).filter
      (fun r ↦ decide (-(matchScore js q r : Int) < -100)) = [] := by
    rw [List.filter_eq_nil_iff]
    intro other _ hbelow
    have hle := matchScore_le js q other
    have hlt := of_decide_eq_true hbelow
    omega
  have hsame : (fun r : MarketSearchResult E ↦ decide (-(matchScore js q r : Int) = -100)) =
      fun r ↦ decide (matchScore js q r = 100) := by
    funext r
    rw [decide_eq_decide]
    omega
  rw [hnone, List.nil_append, hsame, filter_sortRank] at hcut
  have hlength : (sortRank (fun r ↦ -(matchScore js q r : Int))
      (all.filter fun r ↦ matchScore js q r = 100)).length ≤ n := by
    rw [length_sortRank]
    exact hroom
  rw [ranked, hcut, List.take_append, List.take_of_length_le hlength]
  refine List.mem_append_left _ (mem_sortRank.mpr (List.mem_filter.mpr ⟨hmem, ?_⟩))
  exact decide_eq_true hexact

theorem equityResult_mem_candidates {entry : SymbolEntry E} (hentry : entry ∈ deps.symbolIndex)
    (hmatches : entry.matches js q = true) : equityResult deps entry ∈ candidates js deps q := by
  have hhit : entry ∈ indexHits js deps q := List.mem_filter.mpr ⟨hentry, hmatches⟩
  have hmerge : candidates js deps q = (indexHits js deps q).map (equityResult deps) ++
      equityOnlineResults js deps (hitKeys js deps (indexHits js deps q)) ++
      cryptoResults deps ++ currencyResults deps ++
      (catalogHits js deps q).map commodityResult := rfl
  rw [hmerge]
  simp only [List.mem_append]
  exact .inl (.inl (.inl (.inl (List.mem_map_of_mem hhit))))

theorem matches_of_mem {entry : SymbolEntry E} (hquery : js.trim query ≠ "")
    (hapart : ToldApart js deps (js.trim query) (boundedLimit limit))
    (hentry : entry ∈ deps.symbolIndex)
    (h : equityResult deps entry ∈ aggregateSymbolSearch js deps query limit) :
    entry.matches js (js.trim query) = true := by
  rw [aggregateSymbolSearch_contenders hquery] at h
  obtain ⟨c, hc, hresult⟩ := List.mem_map.mp h
  have hcontender : c ∈ contenders js deps (js.trim query) (boundedLimit limit) :=
    mem_sortRank.mp (List.mem_of_mem_filter (List.mem_of_mem_take hc))
  have hmem := List.mem_map_of_mem (f := Contender.result) hcontender
  rw [hresult, contenders_result] at hmem
  rw [ToldApart, List.nodup_append] at hapart
  rcases List.mem_append.mp hmem with hhit | helsewhere
  · obtain ⟨other, hother, heq⟩ := List.mem_map.mp hhit
    obtain ⟨hindex, hmatches⟩ := List.mem_filter.mp hother
    rwa [List.inj_on_of_nodup_map hapart.1 hindex hentry heq] at hmatches
  refine absurd rfl (hapart.2.2 _ (List.mem_map_of_mem hentry) _ ?_)
  rcases List.mem_append.mp helsewhere with honline | hcatalog
  · exact List.mem_append_left _ honline
  · exact List.mem_append_right _ (List.map_subset _ (List.filter_subset_self _) hcatalog)

variable [DecidableEq E]

/-- The entries whose symbol is the query match it as a pattern, unless there are others enough. -/
def ExactFound (js : TextEngine) (deps : MarketSearchDeps E) (q : String) (n : Nat) : Prop :=
  ∀ entry ∈ deps.symbolIndex, js.toLowerCase entry.symbol = js.toLowerCase q →
    entry.matches js q = true ∨ n ≤ (otherExact js deps q entry).length

/-- **When a search gives the best matches**: if no entry that the limit cuts off, and no row that
only such an entry repeats, is among the first of the contenders; and, of rows that are told apart,
only then. -/
theorem givesBest_iff (js : TextEngine) (deps : MarketSearchDeps E) (query : String)
    (limit : Option ℚ) :
    ((js.trim query ≠ "" → FirstInBoth js deps (js.trim query) (boundedLimit limit) ∧
        ExactFound js deps (js.trim query) (boundedLimit limit)) →
      GivesBest js deps query limit) ∧
    (ToldApart js deps (js.trim query) (boundedLimit limit) → GivesBest js deps query limit →
      js.trim query ≠ "" → FirstInBoth js deps (js.trim query) (boundedLimit limit) ∧
        ExactFound js deps (js.trim query) (boundedLimit limit)) := by
  constructor
  · intro h
    have hbest := best_of_firstInBoth fun hquery ↦ (h hquery).1
    refine ⟨hbest, fun hquery entry hentry hsymbol hroom ↦ ?_⟩
    rcases (h hquery).2 entry hentry hsymbol with hmatches | hothers
    · have hmem := equityResult_mem_candidates hentry hmatches
      have hexact : matchScore js (js.trim query) (equityResult deps entry) = 100 :=
        matchScore_exact hsymbol
      rw [hbest, bestMatches, if_neg hquery]
      refine mem_take_ranked hmem hexact ?_
      have hfiltered : equityResult deps entry ∈ (candidates js deps (js.trim query)).filter
          fun r ↦ matchScore js (js.trim query) r = 100 :=
        List.mem_filter.mpr ⟨hmem, decide_eq_true hexact⟩
      rw [otherExact, List.length_erase_of_mem hfiltered] at hroom
      omega
    · exact absurd hroom (not_lt.mpr hothers)
  · intro hapart hgives hquery
    refine ⟨firstInBoth_of_best hquery hapart hgives.best, fun entry hentry hsymbol ↦ ?_⟩
    by_cases hroom : (otherExact js deps (js.trim query) entry).length < boundedLimit limit
    · exact .inl (matches_of_mem hquery hapart hentry
        (hgives.exact hquery entry hentry hsymbol hroom))
    · exact .inr (not_lt.mp hroom)

/-! ## A better match behind a worse one -/

def plainTexts : TextEngine :=
  { regExp := fun pattern ↦ some fun s ↦ includes (String.ofList (s.toList.map Char.toLower))
      (String.ofList (pattern.toList.map Char.toLower))
    toLowerCase := fun s ↦ String.ofList (s.toList.map Char.toLower)
    toUpperCase := fun s ↦ String.ofList (s.toList.map Char.toUpper)
    trim := id }

/-- An index in which the ticker `A` stands behind `AB`. -/
def abBeforeA : MarketSearchDeps Unit :=
  { symbolIndex := [⟨"AB", "AllianceBernstein", ()⟩, ⟨"A", "Agilent", ()⟩]
    commodityCatalog := []
    equityVendors := [("yfinance", some [])]
    crypto := some []
    currency := some [] }

/-- Searching for `A` with room for one, `AB` is given. -/
theorem worse_match_given : ¬ ∀ (js : TextEngine) (deps : MarketSearchDeps Unit) (query : String)
    (limit : Option ℚ), GivesBest js deps query limit := by
  intro hall
  exact absurd (hall plainTexts abBeforeA "A" (some 1)).best (by decide +kernel)

/-- Where both fit, both are given, the better one first. -/
theorem givesBest_iff_abBeforeA : GivesBest plainTexts abBeforeA "A" (some 2) := by
  refine (givesBest_iff plainTexts abBeforeA "A" (some 2)).1 fun _ ↦ ⟨?_, ?_⟩
  · show ∀ c ∈ (rankedContenders plainTexts abBeforeA "A" _).take _, _ ∧ _
    decide +kernel
  · show ∀ entry ∈ abBeforeA.symbolIndex, _ = _ → _ = _ ∨ _ ≤ _
    decide +kernel

end OpenAlice.Market
