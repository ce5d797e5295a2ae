import Mathlib.Data.List.Nodup
import OpenAlice.Analysis.Answers
import OpenAlice.Analysis.Provenance

/-!
# Every series under its own key

What the output of an evaluation says of the series that were fetched.  Each of the two objects,
`dataRange` and `dates`, `Holds` the fetches under the keys that they have; a fetch under a new key,
one more under a key that it has already, and a key that is given up are one lemma each.

A fetch of a bar id and an interval that were fetched before takes the place of what came back then
(`other_axis`).  So does one whose key is the key of another series, for the keys are plain texts.
The condition `Provenance.clear` says of the state before a fetch that it does neither.
-/

namespace OpenAlice.Analysis

open Data

variable {K : Type}

/-! ## What is said of an output -/

def keyIn (fetches : List Fetch) (barId interval : String) : String :=
  if ∀ g ∈ fetches, g.barId = some barId → g.interval = interval then barId
  else intervalKey barId interval

def Fetch.keyIn (fetches : List Fetch) (f : Fetch) : String :=
  Analysis.keyIn fetches (f.barId.getD "") f.interval

structure Holds {α : Type} (entries : List (String × α)) (fetches : List Fetch)
    (key : Fetch → String) (value : Fetch → α) : Prop where
  found : ∀ f ∈ fetches, entries.lookup (key f) = some (value f)
  keys : ∀ k ∈ entries.map Prod.fst, ∃ f ∈ fetches, k = key f
  nodup : (entries.map Prod.fst).Nodup

/-! ## One object -/

section Entries

variable {α : Type} {entries : Entries α} {fetches : List Fetch} {f : Fetch}
  {key key' : Fetch → String} {value : Fetch → α} {k new : String}

def Entries.free (entries : Entries α) (key : String) : Bool :=
  key ≠ "__proto__" && key ∉ entries.own.map Prod.fst

theorem Entries.of_free (h : entries.free k = true) :
    k ≠ "__proto__" ∧ k ∉ entries.own.map Prod.fst := by
  rw [Entries.free, Bool.and_eq_true] at h
  exact ⟨of_decide_eq_true h.1, of_decide_eq_true h.2⟩

theorem Entries.own_set {v : α} (h : k ≠ "__proto__") :
    (entries.set k v).own = setKey entries.own k v := by
  rw [Entries.set, dif_neg h]

theorem Entries.ne_of_lookup {v : α} (h : entries.own.lookup k = some v) : k ≠ "__proto__" := by
  rintro rfl
  exact entries.own_ne (List.mem_map_of_mem (mem_of_lookup h))

theorem holds_nil : Holds ([] : List (String × α)) [] key value where
  found _ hf := by cases hf
  keys _ hk := by cases hk
  nodup := .nil

theorem Holds.set (h : Holds entries.own fetches key value) (hproto : k ≠ "__proto__")
    (hvalue : ∀ g ∈ fetches, key g = k → value g = value f)
    (hkey : ∀ g ∈ fetches, key' g = key g) (hf : key' f = k) :
    Holds (entries.set k (value f)).own (fetches ++ [f]) key' value := by
  rw [Entries.own_set hproto]
  refine ⟨fun g hg ↦ ?_, fun k' hk' ↦ ?_, nodup_setKey h.nodup⟩
  · rcases List.mem_append.mp hg with hg | hg
    · rw [hkey g hg]
      by_cases heq : key g = k
      · rw [heq, lookup_setKey_self, hvalue g hg heq]
      · rw [lookup_setKey_of_ne heq]
        exact h.found g hg
    · rw [List.mem_singleton.mp hg, hf]
      exact lookup_setKey_self _
  · rcases mem_keys_setKey hk' with rfl | hk'
    · exact ⟨f, by simp, hf.symm⟩
    · obtain ⟨g, hg, rfl⟩ := h.keys k' hk'
      exact ⟨g, List.mem_append_left _ hg, (hkey g hg).symm⟩

theorem Holds.set_free (h : Holds entries.own fetches key value) (hfree : entries.free k = true)
    (hkey : ∀ g ∈ fetches, key' g = key g) (hf : key' f = k) :
    Holds (entries.set k (value f)).own (fetches ++ [f]) key' value := by
  obtain ⟨hproto, hfresh⟩ := Entries.of_free hfree
  refine h.set hproto (fun g hg heq ↦ ?_) hkey hf
  exact absurd (List.mem_map_of_mem (mem_of_lookup (h.found g hg))) (heq ▸ hfresh)

theorem Holds.set_same (h : Holds entries.own fetches key value)
    (hsame : entries.own.lookup k = some (value f))
    (hkey : ∀ g ∈ fetches, key' g = key g) (hf : key' f = k) :
    Holds (entries.set k (value f)).own (fetches ++ [f]) key' value := by
  refine h.set (Entries.ne_of_lookup hsame) (fun g hg heq ↦ ?_) hkey hf
  exact Option.some.inj ((h.found g hg).symm.trans (heq ▸ hsame))

theorem Holds.value_eq (h : Holds entries.own fetches key value) {g : Fetch} (hf : f ∈ fetches)
    (hg : g ∈ fetches) (heq : key g = key f) : value g = value f := by
  have hfound := h.found g hg
  rw [heq, h.found f hf] at hfound
  exact (Option.some.inj hfound).symm

theorem Holds.rename (h : Holds entries.own fetches key value) (hf : f ∈ fetches)
    (hk : key f = k) (hfree : entries.free new = true)
    (hmoved : ∀ g ∈ fetches, key g = k → key' g = new)
    (hkey : ∀ g ∈ fetches, key g ≠ k → key' g = key g) :
    Holds (entries.rename k new).own fetches key' value := by
  obtain ⟨hproto, hfresh⟩ := Entries.of_free hfree
  have hlookup : entries.own.lookup k = some (value f) := hk ▸ h.found f hf
  have hne : new ≠ k := by
    rintro rfl
    exact hfresh (List.mem_map_of_mem (mem_of_lookup hlookup))
  have hrename : (entries.rename k new).own = deleteKey (setKey entries.own new (value f)) k := by
    rw [Entries.rename, Entries.get, if_neg (Entries.ne_of_lookup hlookup), hlookup]
    simp only [Entries.delete, Entries.own_set hproto]
  rw [hrename]
  refine ⟨fun g hg ↦ ?_, fun k' hk' ↦ ?_, nodup_deleteKey (nodup_setKey h.nodup)⟩
  · by_cases heq : key g = k
    · rw [hmoved g hg heq, h.value_eq hf hg (heq.trans hk.symm)]
      exact (lookup_deleteKey_of_ne hne _).trans (lookup_setKey_self _)
    have hold : key g ≠ new := by
      rintro rfl
      exact hfresh (List.mem_map_of_mem (mem_of_lookup (h.found g hg)))
    rw [hkey g hg heq]
    exact (lookup_deleteKey_of_ne heq _).trans ((lookup_setKey_of_ne hold _).trans (h.found g hg))
  · obtain ⟨entry, hentry, rfl⟩ := List.mem_map.mp hk'
    obtain ⟨hentry, hkept⟩ := List.mem_filter.mp hentry
    rcases mem_keys_setKey (List.mem_map_of_mem hentry) with hnew | hold
    · exact ⟨f, hf, hnew.trans (hmoved f hf hk).symm⟩
    obtain ⟨g, hg, heq⟩ := h.keys _ hold
    have hgk : key g ≠ k := heq ▸ of_decide_eq_true hkept
    exact ⟨g, hg, heq.trans (hkey g hg hgk).symm⟩

end Entries

/-! ## The condition -/

def Provenance.free (s : Provenance) (key : String) : Bool :=
  s.dataRange.free key && s.dates.free key

def Provenance.has (s : Provenance) (key : String) (f : Fetch) : Bool :=
  s.dataRange.own.lookup key = some f.dated && s.dates.own.lookup key = some f.axis

/-- **The condition.**  The fetch has a bar id; when the bar id and the interval were fetched before,
the same came back; and else the keys that come into use are free. -/
def Provenance.clear (s : Provenance) (f : Fetch) : Bool :=
  match f.barId with
  | none => false
  | some barId =>
    match s.intervalsByBarId.lookup barId with
    | none => s.free barId
    | some intervals =>
      if f.interval ∈ intervals then
        s.has (if intervals.length = 1 then barId else intervalKey barId f.interval) f
      else
        s.free (intervalKey barId f.interval) &&
          match intervals with
          | [firstInterval] => s.free (intervalKey barId firstInterval)
          | _ => true

/-! ## The invariant -/

def Provenance.intervals (s : Provenance) (barId : String) : List String :=
  (s.intervalsByBarId.lookup barId).getD []

def Provenance.keyOf (s : Provenance) (f : Fetch) : String :=
  if (s.intervals (f.barId.getD "")).length = 1 then f.barId.getD ""
  else intervalKey (f.barId.getD "") f.interval

structure Recorded (s : Provenance) (fetches : List Fetch) : Prop where
  barIds : ∀ f ∈ fetches, ∃ barId, f.barId = some barId
  ne_nil : ∀ barId, s.intervalsByBarId.lookup barId ≠ some []
  nodup : ∀ barId, (s.intervals barId).Nodup
  intervals : ∀ barId interval, interval ∈ s.intervals barId ↔
    ∃ f ∈ fetches, f.barId = some barId ∧ f.interval = interval
  dataRange : Holds s.dataRange.own fetches s.keyOf Fetch.dated
  dates : Holds s.dates.own fetches s.keyOf Fetch.axis

section Record

variable {s s' : Provenance} {fetches : List Fetch} {f g : Fetch} {barId : String}
  {intervals : List String}

theorem keyOf_eq (hf : f.barId = some barId) :
    s.keyOf f = if (s.intervals barId).length = 1 then barId else intervalKey barId f.interval := by
  rw [Provenance.keyOf, hf, Option.getD_some]

theorem keyOf_congr (hf : f.barId = some barId) (h : s'.intervals barId = s.intervals barId) :
    s'.keyOf f = s.keyOf f := by
  rw [keyOf_eq hf, keyOf_eq hf, h]

theorem Recorded.same (h : Recorded s fetches) (hf : f ∈ fetches) (hg : g ∈ fetches)
    (heq : s.keyOf g = s.keyOf f) : g.barId = f.barId ∧ g.interval = f.interval := by
  have hdated := h.dataRange.value_eq hf hg heq
  have hbarId : g.dated.barId = f.dated.barId := congrArg DataSourceMeta.barId hdated
  have hinterval : g.dated.interval = f.dated.interval := congrArg DataSourceMeta.interval hdated
  exact ⟨congrArg (Option.filter fun barId ↦ decide (barId ≠ "")) hbarId, Option.some.inj hinterval⟩

theorem intervalKey_inj {interval interval' : String}
    (h : intervalKey barId interval = intervalKey barId interval') : interval = interval' := by
  have hlist := congrArg String.toList h
  simp only [intervalKey, String.toList_append, List.append_cancel_left_eq] at hlist
  exact String.toList_inj.mp hlist

theorem Recorded.book (h : Recorded s fetches) (hf : f.barId = some barId)
    (hnew : f.interval ∉ s.intervals barId)
    (hs' : s'.intervalsByBarId =
      setKey s.intervalsByBarId barId (s.intervals barId ++ [f.interval]))
    (hdataRange : Holds s'.dataRange.own (fetches ++ [f]) s'.keyOf Fetch.dated)
    (hdates : Holds s'.dates.own (fetches ++ [f]) s'.keyOf Fetch.axis) :
    Recorded s' (fetches ++ [f]) := by
  have hself : s'.intervals barId = s.intervals barId ++ [f.interval] := by
    rw [Provenance.intervals, hs', lookup_setKey_self, Option.getD_some]
  have hother : ∀ barId', barId' ≠ barId → s'.intervals barId' = s.intervals barId' := by
    intro barId' hne
    rw [Provenance.intervals, hs', lookup_setKey_of_ne hne, Provenance.intervals]
  refine ⟨?_, fun barId' ↦ ?_, fun barId' ↦ ?_, fun barId' interval ↦ ?_, hdataRange, hdates⟩
  · exact List.forall_mem_append.mpr ⟨h.barIds, by simp [hf]⟩
  · rw [hs']
    by_cases hne : barId' = barId
    · rw [hne, lookup_setKey_self]
      simp
    · rw [lookup_setKey_of_ne hne]
      exact h.ne_nil barId'
  · by_cases hne : barId' = barId
    · rw [hne, hself]
      refine List.nodup_append.mpr ⟨h.nodup barId, by simp, ?_⟩
      rintro a ha b hb rfl
      exact hnew (List.mem_singleton.mp hb ▸ ha)
    · rw [hother barId' hne]
      exact h.nodup barId'
  · by_cases hne : barId' = barId
    · subst hne
      rw [hself, List.mem_append, h.intervals]
      simp only [List.mem_append, List.mem_singleton, or_and_right, exists_or, exists_eq_left, hf,
        true_and]
      exact or_congr_right eq_comm
    · rw [hother barId' hne, h.intervals]
      have hfne : f.barId ≠ some barId' := by
        rw [hf]
        exact fun heq ↦ hne (Option.some.inj heq).symm
      simp only [List.mem_append, List.mem_singleton, or_and_right, exists_or, exists_eq_left, hfne,
        false_and, or_false]

theorem Recorded.keyOf_other (h : Recorded s fetches) (hg : g ∈ fetches)
    (hother : ∀ barId', barId' ≠ barId → s'.intervals barId' = s.intervals barId')
    (hne : g.barId ≠ some barId) : s'.keyOf g = s.keyOf g := by
  obtain ⟨barId', hbarId⟩ := h.barIds g hg
  refine keyOf_congr hbarId (hother barId' ?_)
  rintro rfl
  exact hne hbarId

theorem Recorded.first (h : Recorded s fetches) (hf : f.barId = some barId)
    (hlookup : s.intervalsByBarId.lookup barId = none) (hfree : s.free barId = true) :
    Recorded { s.assign true barId f with
      intervalsByBarId := setKey s.intervalsByBarId barId [f.interval] } (fetches ++ [f]) := by
  have hnone : s.intervals barId = [] := by rw [Provenance.intervals, hlookup, Option.getD_none]
  rw [Provenance.free, Bool.and_eq_true] at hfree
  have hkey : ∀ g ∈ fetches, Provenance.keyOf { s.assign true barId f with
      intervalsByBarId := setKey s.intervalsByBarId barId [f.interval] } g = s.keyOf g := by
    intro g hg
    have hne : g.barId ≠ some barId := by
      intro hbarId
      have hmem := (h.intervals barId g.interval).mpr ⟨g, hg, hbarId, rfl⟩
      rw [hnone] at hmem
      cases hmem
    refine h.keyOf_other hg (fun barId' hne' ↦ ?_) hne
    rw [Provenance.intervals, lookup_setKey_of_ne hne', Provenance.intervals]
  have hself : Provenance.keyOf { s.assign true barId f with
      intervalsByBarId := setKey s.intervalsByBarId barId [f.interval] } f = barId := by
    rw [keyOf_eq hf, Provenance.intervals, lookup_setKey_self, Option.getD_some]
    exact if_pos rfl
  refine h.book hf (by rw [hnone]; exact List.not_mem_nil) (by rw [hnone]; rfl) ?_ ?_
  · exact h.dataRange.set_free hfree.1 hkey hself
  · exact h.dates.set_free hfree.2 hkey hself

theorem Recorded.again (h : Recorded s fetches) (hf : f.barId = some barId)
    (hinterval : f.interval ∈ s.intervals barId) (hhas : s.has (s.keyOf f) f = true) :
    Recorded (s.assign true (s.keyOf f) f) (fetches ++ [f]) := by
  rw [Provenance.has, Bool.and_eq_true] at hhas
  refine ⟨?_, h.ne_nil, h.nodup, fun barId' interval ↦ ?_, ?_, ?_⟩
  · exact List.forall_mem_append.mpr ⟨h.barIds, by simp [hf]⟩
  · refine (h.intervals barId' interval).trans ⟨?_, ?_⟩
    · rintro ⟨g, hg, hbarId, hg'⟩
      exact ⟨g, List.mem_append_left _ hg, hbarId, hg'⟩
    rintro ⟨g, hg, hbarId, rfl⟩
    rcases List.mem_append.mp hg with hg | hg
    · exact ⟨g, hg, hbarId, rfl⟩
    obtain rfl := List.mem_singleton.mp hg
    rw [hf] at hbarId
    cases hbarId
    exact (h.intervals barId g.interval).mp hinterval
  · exact h.dataRange.set_same (of_decide_eq_true hhas.1) (fun _ _ ↦ rfl) rfl
  · exact h.dates.set_same (of_decide_eq_true hhas.2) (fun _ _ ↦ rfl) rfl

theorem Recorded.another (h : Recorded s fetches) (hf : f.barId = some barId)
    (hnew : f.interval ∉ s.intervals barId) (htwo : 1 < (s.intervals barId).length)
    (hfree : s.free (intervalKey barId f.interval) = true) :
    Recorded { s.assign true (intervalKey barId f.interval) f with
      intervalsByBarId := setKey s.intervalsByBarId barId (s.intervals barId ++ [f.interval]) }
      (fetches ++ [f]) := by
  rw [Provenance.free, Bool.and_eq_true] at hfree
  have hself : Provenance.intervals { s.assign true (intervalKey barId f.interval) f with
      intervalsByBarId := setKey s.intervalsByBarId barId (s.intervals barId ++ [f.interval]) }
      barId = s.intervals barId ++ [f.interval] := by
    rw [Provenance.intervals, lookup_setKey_self, Option.getD_some]
  have hlong : ¬ (s.intervals barId ++ [f.interval]).length = 1 := by
    rw [List.length_append]
    exact fun hone ↦ absurd htwo (by simp only [List.length_singleton] at hone; omega)
  have hkey : ∀ g ∈ fetches, Provenance.keyOf { s.assign true (intervalKey barId f.interval) f with
      intervalsByBarId := setKey s.intervalsByBarId barId (s.intervals barId ++ [f.interval]) } g =
      s.keyOf g := by
    intro g hg
    by_cases hbarId : g.barId = some barId
    · rw [keyOf_eq hbarId, keyOf_eq hbarId, hself, if_neg hlong, if_neg htwo.ne']
    · refine h.keyOf_other hg (fun barId' hne' ↦ ?_) hbarId
      rw [Provenance.intervals, lookup_setKey_of_ne hne', Provenance.intervals]
  have hkeyf := keyOf_eq (s := { s.assign true (intervalKey barId f.interval) f with
      intervalsByBarId := setKey s.intervalsByBarId barId (s.intervals barId ++ [f.interval]) }) hf
  rw [hself, if_neg hlong] at hkeyf
  refine h.book hf hnew rfl ?_ ?_
  · exact h.dataRange.set_free hfree.1 hkey hkeyf
  · exact h.dates.set_free hfree.2 hkey hkeyf

theorem Entries.free_rename {α : Type} {entries : Entries α} {k k' new : String}
    (h : entries.free k' = true) (hne : k' ≠ new) (hproto : new ≠ "__proto__") :
    (entries.rename k new).free k' = true := by
  obtain ⟨hproto', hfresh⟩ := Entries.of_free h
  rw [Entries.rename]
  cases hget : entries.get k with
  | none => exact h
  | some value =>
    have hnot : k' ∉ ((entries.set new value).delete k).own.map Prod.fst := by
      intro hmem
      have hset : k' ∈ (entries.set new value).own.map Prod.fst :=
        (List.filter_sublist.map _).subset hmem
      rw [Entries.own_set hproto] at hset
      exact (mem_keys_setKey hset).elim hne hfresh
    rw [Entries.free, Bool.and_eq_true]
    exact ⟨decide_eq_true hproto', decide_eq_true hnot⟩

theorem Recorded.second (h : Recorded s fetches) {firstInterval : String}
    (hf : f.barId = some barId) (hone : s.intervals barId = [firstInterval])
    (hnew : f.interval ≠ firstInterval) (hfree : s.free (intervalKey barId f.interval) = true)
    (hfirst : s.free (intervalKey barId firstInterval) = true)
    (hdataRange : s'.dataRange = (s.dataRange.rename barId (intervalKey barId firstInterval)).set
      (intervalKey barId f.interval) f.dated)
    (hdates : s'.dates = (s.dates.rename barId (intervalKey barId firstInterval)).set
      (intervalKey barId f.interval) f.axis)
    (hintervals : s'.intervalsByBarId =
      setKey s.intervalsByBarId barId (s.intervals barId ++ [f.interval])) :
    Recorded s' (fetches ++ [f]) := by
  rw [Provenance.free, Bool.and_eq_true] at hfree hfirst
  have hself : s'.intervals barId = [firstInterval, f.interval] := by
    rw [Provenance.intervals, hintervals, lookup_setKey_self, Option.getD_some, hone]
    rfl
  have hkeyOf : ∀ g, g.barId = some barId → s'.keyOf g = intervalKey barId g.interval := by
    intro g hbarId
    rw [keyOf_eq hbarId, hself]
    exact if_neg (by simp)
  have hcompact : ∀ g, g.barId = some barId → s.keyOf g = barId := by
    intro g hbarId
    rw [keyOf_eq hbarId, hone]
    exact if_pos rfl
  -- The fetches of the compact key are those of the bar id, all at its first interval.
  obtain ⟨f₀, hf₀, hbarId₀, hinterval₀⟩ :=
    (h.intervals barId firstInterval).mp (hone ▸ List.mem_singleton_self _)
  have hmoved : ∀ g ∈ fetches, s.keyOf g = barId → s'.keyOf g = intervalKey barId firstInterval := by
    intro g hg hkey
    obtain ⟨hbarId, hinterval⟩ := h.same hf₀ hg (hkey.trans (hcompact f₀ hbarId₀).symm)
    rw [hkeyOf g (hbarId.trans hbarId₀), hinterval, hinterval₀]
  have hother : ∀ g ∈ fetches, s.keyOf g ≠ barId → s'.keyOf g = s.keyOf g := by
    intro g hg hkey
    refine h.keyOf_other hg (fun barId' hne ↦ ?_) fun hbarId ↦ hkey (hcompact g hbarId)
    rw [Provenance.intervals, hintervals, lookup_setKey_of_ne hne, Provenance.intervals]
  have hkeys : intervalKey barId f.interval ≠ intervalKey barId firstInterval :=
    fun heq ↦ hnew (intervalKey_inj heq)
  refine h.book hf (by simp [hone, hnew]) hintervals ?_ ?_
  · rw [hdataRange]
    refine (h.dataRange.rename hf₀ (hcompact f₀ hbarId₀) hfirst.1 hmoved hother).set_free ?_
      (fun _ _ ↦ rfl) (hkeyOf f hf)
    exact Entries.free_rename hfree.1 hkeys (Entries.of_free hfirst.1).1
  rw [hdates]
  refine (h.dates.rename hf₀ (hcompact f₀ hbarId₀) hfirst.2 hmoved hother).set_free ?_
    (fun _ _ ↦ rfl) (hkeyOf f hf)
  exact Entries.free_rename hfree.2 hkeys (Entries.of_free hfirst.2).1

theorem Recorded.record (h : Recorded s fetches) (hclear : s.clear f = true) :
    Recorded (recordProvenance true s f) (fetches ++ [f]) := by
  rw [Provenance.clear] at hclear
  rw [recordProvenance]
  cases hf : f.barId with
  | none =>
    rw [hf] at hclear
    cases hclear
  | some barId =>
    simp only [hf] at hclear ⊢
    cases hlookup : s.intervalsByBarId.lookup barId with
    | none =>
      simp only [hlookup] at hclear ⊢
      exact h.first hf hlookup hclear
    | some intervals =>
      have hintervals : s.intervals barId = intervals := by
        rw [Provenance.intervals, hlookup, Option.getD_some]
      simp only [hlookup] at hclear ⊢
      have hkey := keyOf_eq (s := s) hf
      rw [hintervals] at hkey
      rw [← hkey] at hclear ⊢
      by_cases hmem : f.interval ∈ intervals
      · rw [if_pos hmem] at hclear ⊢
        exact h.again hf (hintervals ▸ hmem) hclear
      rw [if_neg hmem, Bool.and_eq_true] at hclear
      rw [if_neg hmem]
      obtain ⟨hfree, hfirst⟩ := hclear
      subst hintervals
      rcases hcases : s.intervals barId with _ | ⟨firstInterval, _ | ⟨next, rest⟩⟩
      · exact absurd (hcases ▸ hlookup) (h.ne_nil barId)
      · rw [hcases] at hfirst hmem
        refine h.second hf hcases (by simpa using hmem) hfree hfirst rfl rfl ?_
        rw [hcases]
      · have htwo : 1 < (s.intervals barId).length := by
          rw [hcases]
          simp
        have hanother := h.another hf hmem htwo hfree
        rwa [hcases] at hanother

theorem recorded_nil : Recorded {} [] where
  barIds _ hf := by cases hf
  ne_nil _ hnil := by cases hnil
  nodup _ := .nil
  intervals barId interval := by simp [Provenance.intervals]
  dataRange := holds_nil
  dates := holds_nil

def Provenance.clearAll (s : Provenance) : List Fetch → Bool
  | [] => true
  | f :: order => s.clear f && (recordProvenance true s f).clearAll order

theorem Recorded.run {order : List Fetch} (h : Recorded s fetches)
    (hclear : s.clearAll order = true) :
    Recorded (order.foldl (recordProvenance true) s) (fetches ++ order) := by
  induction order generalizing s fetches with
  | nil =>
    rw [List.append_nil]
    exact h
  | cons f order ih =>
    rw [Provenance.clearAll, Bool.and_eq_true] at hclear
    rw [List.append_cons]
    exact ih (h.record hclear.1) hclear.2

theorem Recorded.length_eq_one (h : Recorded s fetches) (hf : f ∈ fetches)
    (hbarId : f.barId = some barId) :
    (s.intervals barId).length = 1 ↔
      ∀ g ∈ fetches, g.barId = some barId → g.interval = f.interval := by
  have hmem : f.interval ∈ s.intervals barId := (h.intervals barId _).mpr ⟨f, hf, hbarId, rfl⟩
  constructor
  · intro hone g hg hg'
    obtain ⟨interval, hinterval⟩ := List.length_eq_one_iff.mp hone
    have hmem' : g.interval ∈ s.intervals barId := (h.intervals barId _).mpr ⟨g, hg, hg', rfl⟩
    rw [hinterval] at hmem hmem'
    rw [List.mem_singleton.mp hmem, List.mem_singleton.mp hmem']
  · intro hall
    have hsame : ∀ i ∈ s.intervals barId, i = f.interval := by
      intro i hi
      obtain ⟨g, hg, hg', rfl⟩ := (h.intervals barId i).mp hi
      exact hall g hg hg'
    have hnodup := h.nodup barId
    rw [List.eq_replicate_of_mem hsame, List.nodup_replicate] at hnodup
    exact le_antisymm hnodup (List.length_pos_of_mem hmem)

theorem Recorded.keyOf_eq_keyIn (h : Recorded s fetches) (hf : f ∈ fetches)
    {all : List Fetch} (hall : ∀ g, g ∈ all ↔ g ∈ fetches) : f.keyIn all = s.keyOf f := by
  obtain ⟨barId, hbarId⟩ := h.barIds f hf
  rw [keyOf_eq hbarId, Fetch.keyIn, hbarId, Option.getD_some, keyIn]
  refine if_congr ?_ rfl rfl
  rw [h.length_eq_one hf hbarId]
  exact forall_congr' fun g ↦ by rw [hall]

theorem Holds.of_mem_iff {α : Type} {entries : List (String × α)} {key key' : Fetch → String}
    {value : Fetch → α} {all : List Fetch} (h : Holds entries fetches key value)
    (hall : ∀ g, g ∈ all ↔ g ∈ fetches) (hkey : ∀ f ∈ fetches, key' f = key f) :
    Holds entries all key' value where
  found f hf := by
    have hf' := (hall f).mp hf
    rw [hkey f hf']
    exact h.found f hf'
  keys k hk := by
    obtain ⟨f, hf, rfl⟩ := h.keys k hk
    exact ⟨f, (hall f).mpr hf, (hkey f hf).symm⟩
  nodup := h.nodup

end Record

section Results

variable [Field K] [LinearOrder K] [FloorRing K]

/-- **Every fetched series keeps its own provenance**, in every order in which the fetches of
a program can complete and each of them meets the condition: each fetch has one key in `dataRange`
and one in `dates`, with its metadata and its dates, and there is no other key. -/
theorem provenance_kept (lang : Language K) (service : BarService K) (firstToFail : Pos → Nat)
    (program : Program K) {order : List Fetch} {out : CalcOutput K}
    (h : Outputs lang service firstToFail true program order out)
    (hclear : Provenance.clearAll {} order = true) :
    let fetches := (fetchesOfProgram lang service firstToFail program).toList
    (∀ f ∈ fetches, f.barId ≠ none) ∧
      Holds out.dataRange fetches (Fetch.keyIn fetches) Fetch.dated ∧
      ∃ dates, out.dates = some dates ∧ Holds dates fetches (Fetch.keyIn fetches) Fetch.axis := by
  obtain ⟨-, hcompletes⟩ := h
  have hrecorded := recorded_nil.run hclear
  rw [List.nil_append] at hrecorded
  have hall : ∀ g, g ∈ (fetchesOfProgram lang service firstToFail program).toList ↔ g ∈ order :=
    fun g ↦ hcompletes.perm.mem_iff.symm
  have hkey : ∀ f ∈ order, f.keyIn (fetchesOfProgram lang service firstToFail program).toList =
      (provenanceOf true order).keyOf f := fun _ hf ↦ hrecorded.keyOf_eq_keyIn hf hall
  refine ⟨fun f hf hnone ↦ ?_, hrecorded.dataRange.of_mem_iff hall hkey, _, rfl,
    hrecorded.dates.of_mem_iff hall hkey⟩
  obtain ⟨barId, hbarId⟩ := hrecorded.barIds f ((hall f).mp hf)
  rw [hbarId] at hnone
  cases hnone

end Results

/-! ## Two programs -/

def metaOf (barId : String) : DataSourceMeta :=
  { symbol := "X", «from» := "d1", «to» := "d2", bars := 2, barId := some barId }

def growing : BarService ℚ where
  getBars pos barId _ _ :=
    .ok ⟨[("d1", ⟨1, 1, 1, 1, none⟩), ("d2", ⟨1, 1, 1, 1, none⟩)].take pos.line, metaOf barId⟩

/-- A call of `bars` in a line. -/
def barsAt (line : Nat) (interval : String) : Expr ℚ :=
  .call "bars" (.cons none (.str "a|X" ⟨line, 10⟩) (.cons none (.str interval ⟨line, 16⟩) .nil))
    ⟨line, 5⟩

def fetchTwice (interval : String) : Program ℚ :=
  ⟨[("a", barsAt 1 "1d"), ("b", barsAt 2 interval)], .str "done" ⟨3, 1⟩⟩

def twoFetches (interval : String) : List Fetch :=
  [⟨"1d", metaOf "a|X", ["d1"]⟩, ⟨interval, metaOf "a|X", ["d1", "d2"]⟩]

def outputOf (interval : String) : CalcOutput ℚ where
  value := .str "done"
  dataRange := (provenanceOf true (twoFetches interval)).dataRange.own
  dates := some (provenanceOf true (twoFetches interval)).dates.own

theorem outputs_outputOf {interval : String} (h : interval = "1d" ∨ interval = "1h") :
    Outputs fractions growing (fun _ ↦ 0) true (fetchTwice interval) (twoFetches interval)
      (outputOf interval) := by
  have hfetches : (fetchesOfProgram fractions growing (fun _ ↦ 0) (fetchTwice interval)).toList =
      twoFetches interval := by
    rcases h with rfl | rfl <;> rfl
  have hcompletes := Parts.completes_toList
    (fetchesOfProgram fractions growing (fun _ ↦ 0) (fetchTwice interval))
  rw [hfetches] at hcompletes
  have hvalue : (evaluate fractions (growing.deps fun _ ↦ 0) (fetchTwice interval)).result =
      .ok (.str "done") := by
    rcases h with rfl | rfl <;> rfl
  exact .mk hvalue hcompletes

/-- A bar id that is fetched at two intervals has a key for each. -/
theorem provenance_kept_two : (outputOf "1h").dataRange.lookup "a|X@1d" =
      some { metaOf "a|X" with interval := some "1d" } := by
  obtain ⟨-, hdataRange, -⟩ := provenance_kept fractions growing (fun _ ↦ 0) (fetchTwice "1h")
    (outputs_outputOf (.inr rfl)) (by decide +kernel)
  exact hdataRange.found _ (.head _)

/-- **A second fetch of a bar id and an interval** takes the place of the first one. -/
theorem other_axis :
    ¬ ∀ (lang : Language ℚ) (service : BarService ℚ) (firstToFail : Pos → Nat) (program : Program ℚ)
        (order : List Fetch) (out : CalcOutput ℚ),
      Outputs lang service firstToFail true program order out →
      ∀ f ∈ (fetchesOfProgram lang service firstToFail program).toList, ∃ dates,
        out.dates = some dates ∧
          dates.lookup (f.keyIn (fetchesOfProgram lang service firstToFail program).toList) =
            some f.axis := by
  intro h
  have hfirst : (⟨"1d", metaOf "a|X", ["d1"]⟩ : Fetch) ∈
      (fetchesOfProgram fractions growing (fun _ ↦ 0) (fetchTwice "1d")).toList := .head _
  obtain ⟨dates, hdates, hfound⟩ := h fractions growing (fun _ ↦ 0) (fetchTwice "1d") _ _
    (outputs_outputOf (.inl rfl)) _ hfirst
  cases hdates
  revert hfound
  have hfetches : (fetchesOfProgram fractions growing (fun _ ↦ 0) (fetchTwice "1d")).toList =
      twoFetches "1d" := rfl
  rw [hfetches]
  decide +kernel

end OpenAlice.Analysis
