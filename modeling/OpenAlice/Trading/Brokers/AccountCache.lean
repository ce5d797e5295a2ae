import Mathlib.Data.List.Induction
import OpenAlice.Data.Histories
import OpenAlice.Data.Keyed
import OpenAlice.Trading.Brokers.PositionMath

/-!
# The account cache of the IBKR bridge

The account subscription of `brokers/ibkr/request-bridge.ts`.  What TWS reports goes into two
buffers: the live cache, which is read, and the pending one, which takes its place when a download
ends.  A download starts an empty buffer, so the live cache is always made of the reports of the last
whole download and of those since.

`Mirrors` says what a buffer shows of some reports when they are all that it was made of, and `Covers`
says when these are enough.
-/

namespace OpenAlice.Trading.Brokers.AccountCache

open OpenAlice.Data

/-- The arguments of `updatePortfolio`. -/
structure PortfolioReport where
  contract : BrokerContract
  position : Decimal
  marketPrice : Decimal
  marketValue : Decimal
  averageCost : Decimal
  unrealizedPNL : Decimal
  realizedPNL : Decimal
deriving DecidableEq

/-- The arguments of `updateAccountValue`. -/
structure ValueReport where
  key : String
  val : String
  currency : String
deriving DecidableEq

/-- `AccountDownloadResult` -/
structure AccountDownload where
  values : List (String × String) := []
  positions : List BuiltPosition := []

/-- The state of the account subscription. -/
structure Bridge where
  accountCache : Option AccountDownload := none
  accountCachePending : Option AccountDownload := none
  accountSubscribed : Bool := false
  accountCode : Option String := none
  accountReady : Option Bool := none

def Bridge.startAccountSubscription (b : Bridge) (acctCode : String) : Bridge :=
  if b.accountSubscribed then b
  else
    { b with
      accountSubscribed := true
      accountCode := some acctCode
      accountCachePending := some {}
      accountReady := some false }

def Bridge.stopAccountSubscription (b : Bridge) : Bridge :=
  if b.accountSubscribed = false ∨ b.accountCode = none then b
  else { b with accountSubscribed := false, accountCode := none }

/-! ## What a report does to a buffer -/

variable (round : Decimal → Decimal)

/-- `list[idx] = row`, at the first row of an instrument. -/
def replaceFirst (conId : Int) (row : BuiltPosition) : List BuiltPosition → List BuiltPosition
  | [] => []
  | p :: rest =>
    if p.contract.conId = conId then row :: rest else p :: replaceFirst conId row rest

def upsertPosition (list : List BuiltPosition) (conId : Int) (row : Option BuiltPosition) :
    List BuiltPosition :=
  if list.any fun p ↦ p.contract.conId == conId then
    match row with
    | none => list.eraseP fun p ↦ p.contract.conId == conId
    | some row => replaceFirst conId row list
  else list ++ row.toList

def avgPerUnit (r : PortfolioReport) : Decimal :=
  let multDec := r.contract.multiplier.getD 1
  if 1 < multDec then round (r.averageCost / multDec) else r.averageCost

/-- What `updatePortfolio` gives to `buildPosition`. -/
def rowInput (r : PortfolioReport) : BuildPositionInput where
  contract := r.contract
  currency := if r.contract.currency = "" then "USD" else r.contract.currency
  side := if 0 < r.position then .long else .short
  quantity := |r.position|
  avgCost := avgPerUnit round r
  marketPrice := r.marketPrice
  marketValue := some |r.marketValue|
  unrealizedPnL := some r.unrealizedPNL
  realizedPnL := r.realizedPNL
  multiplier := some (r.contract.multiplier.getD 1)

def rowOf (r : PortfolioReport) : Except String (Option BuiltPosition) :=
  if r.position = 0 then .ok none
  else (buildPosition round (rowInput round r)).map some

def compositeKey (key currency : String) : String := key ++ ":" ++ currency

/-- The function `apply` in `updateAccountValue`. -/
def applyValue (values : List (String × String)) (v : ValueReport) : List (String × String) :=
  let m := if v.currency = "" then values else setKey values (compositeKey v.key v.currency) v.val
  if v.currency = "" ∨ v.currency = "BASE" ∨ (m.lookup (compositeKey v.key "BASE")).isNone then
    setKey m v.key v.val
  else m

inductive Callback where
  | portfolio (r : PortfolioReport)
  | value (v : ValueReport)
  | downloadEnd
deriving DecidableEq

def applyReport (d : AccountDownload) : Callback → AccountDownload
  | .portfolio r =>
    match rowOf round r with
    | .ok row => { d with positions := upsertPosition d.positions r.contract.conId row }
    | .error _ => d
  | .value v => { d with values := applyValue d.values v }
  | .downloadEnd => d

/-- `updatePortfolio`, `updateAccountValue` and `accountDownloadEnd` -/
def Bridge.callback (b : Bridge) : Callback → Bridge
  | .downloadEnd =>
    match b.accountCachePending with
    | none => b
    | some pending =>
      { b with
        accountCache := some pending
        accountCachePending := some {}
        accountReady := b.accountReady.map fun _ ↦ true }
  | c =>
    { b with
      accountCachePending := b.accountCachePending.map fun d ↦ applyReport round d c
      accountCache := b.accountCache.map fun d ↦ applyReport round d c }

def Bridge.callbacks (b : Bridge) (history : List Callback) : Bridge :=
  history.foldl (Bridge.callback round) b

/-! ## What was reported -/

def Callback.reportOf (conId : Int) : Callback → Option PortfolioReport
  | .portfolio r => if r.contract.conId = conId then some r else none
  | _ => none

def Callback.valueOf (key currency : String) : Callback → Option String
  | .value v => if v.key = key ∧ v.currency = currency then some v.val else none
  | _ => none

/-- The consolidated value of a key: the one in `BASE`, or in no currency. -/
def Callback.consolidatedOf (key : String) : Callback → Option String
  | .value v => if v.key = key ∧ (v.currency = "" ∨ v.currency = "BASE") then some v.val else none
  | _ => none

def sinceEnd (history : List Callback) : List Callback :=
  history.foldl (fun window c ↦ if c = .downloadEnd then [] else window ++ [c]) []

def reportedRow (r : PortfolioReport) : BuiltPosition where
  contract := r.contract
  side := if 0 < r.position then .long else .short
  quantity := |r.position|
  currency := if r.contract.currency = "" then "USD" else r.contract.currency
  avgCost :=
    if r.contract.multiplier.getD 1 = 1 then r.averageCost
    else round (r.averageCost / r.contract.multiplier.getD 1)
  marketPrice := r.marketPrice
  marketValue := |r.marketValue|
  unrealizedPnL := r.unrealizedPNL
  realizedPnL := r.realizedPNL
  multiplier := r.contract.multiplier.getD 1

def reportedRows (history : List Callback) (conId : Int) : List BuiltPosition :=
  match latest (Callback.reportOf conId) history with
  | some r => if r.position = 0 then [] else [reportedRow round r]
  | none => []

structure Shows (d : AccountDownload) (history : List Callback) : Prop where
  rows : ∀ conId, (d.positions.filter fun p ↦ p.contract.conId == conId) =
    reportedRows round history conId
  entries : ∀ key currency val, ':' ∉ key.toList → currency ≠ "" →
    d.values.lookup (compositeKey key currency) = some val →
      latest (Callback.valueOf key currency) history = some val
  plain : ∀ key val, latest (Callback.consolidatedOf key) history = some val →
    d.values.lookup key = some val

/-! ## What is assumed of the reports -/

/-- What a download promises, when it ends: since the one before it, every position that is held was
reported, and every value that was ever sent in `BASE`. -/
structure Complete (before : List Callback) : Prop where
  positions : ∀ conId r, latest (Callback.reportOf conId) before = some r → r.position ≠ 0 →
    (latest (Callback.reportOf conId) (sinceEnd before)).isSome
  base : ∀ key, (latest (Callback.valueOf key "BASE") before).isSome →
    (latest (Callback.valueOf key "BASE") (sinceEnd before)).isSome

def CompleteDownloads (history : List Callback) : Prop :=
  Along (fun before c ↦ c = .downloadEnd → Complete before) history

/-- A value was sent for the key without a currency, and none in `BASE`. -/
def Uncurrencied (before : List Callback) (key : String) : Prop :=
  (latest (Callback.valueOf key "") before).isSome ∧
    latest (Callback.valueOf key "BASE") before = none

/-- A callback that the buffers take as it is meant: a position that is held has a multiplier that is
not below one, and is no option that counts for one share; no currency comes after a value without
one, unless there is one in `BASE`; and a value without a currency is sent again in every download. -/
def Plain (before : List Callback) : Callback → Prop
  | .portfolio r => r.position ≠ 0 →
      1 ≤ r.contract.multiplier.getD 1 ∧ ¬ (rowInput round r).undecoded
  | .value v => ':' ∉ v.key.toList ∧
      (v.currency ≠ "" → v.currency ≠ "BASE" → ¬ Uncurrencied before v.key)
  | .downloadEnd => ∀ key, Uncurrencied before key →
      (latest (Callback.valueOf key "") (sinceEnd before)).isSome

/-! ## One report in a buffer -/

section Reports

variable {round} {d : AccountDownload} {older tail : List Callback} {c : Callback}

theorem rowOf_eq {r : PortfolioReport}
    (h : r.position ≠ 0 → 1 ≤ r.contract.multiplier.getD 1 ∧ ¬ (rowInput round r).undecoded) :
    rowOf round r = .ok (if r.position = 0 then none else some (reportedRow round r)) := by
  rw [rowOf]
  split_ifs with hposition
  · rfl
  obtain ⟨hunit, hdecoded⟩ := h hposition
  have havg : avgPerUnit round r =
      if r.contract.multiplier.getD 1 = 1 then r.averageCost
      else round (r.averageCost / r.contract.multiplier.getD 1) := by
    rw [avgPerUnit]
    rcases eq_or_lt_of_le hunit with heq | hlt
    · rw [if_pos heq.symm, ← heq, if_neg (lt_irrefl 1)]
    · rw [if_neg hlt.ne', if_pos hlt]
  rw [buildPosition, if_neg hdecoded, reportedRow, ← havg]
  rfl

theorem filter_replaceFirst {conId conId' : Int} {row : BuiltPosition}
    (hrow : row.contract.conId = conId) (list : List BuiltPosition)
    (hany : (list.any fun p ↦ p.contract.conId == conId) = true) :
    ((replaceFirst conId row list).filter fun p ↦ p.contract.conId == conId') =
      if conId' = conId then
        row :: (list.filter fun p ↦ p.contract.conId == conId).tail
      else list.filter fun p ↦ p.contract.conId == conId' := by
  induction list with
  | nil => cases hany
  | cons p rest ih =>
    rw [replaceFirst]
    by_cases hp : p.contract.conId = conId
    · rw [if_pos hp]
      split_ifs with heq
      · rw [List.filter_cons_of_pos (by rw [hrow, heq, beq_self_eq_true]),
          List.filter_cons_of_pos (by rw [hp, beq_self_eq_true]), heq, List.tail_cons]
      have hne : (conId == conId') = false := beq_false_of_ne fun h ↦ heq h.symm
      rw [List.filter_cons_of_neg (by rw [hrow, hne]; decide),
        List.filter_cons_of_neg (by rw [hp, hne]; decide)]
    · rw [List.any_cons, beq_false_of_ne hp, Bool.false_or] at hany
      rw [if_neg hp]
      have htail := ih hany
      split_ifs with heq
      · rw [if_pos heq] at htail
        rw [List.filter_cons_of_neg (by rw [heq, beq_false_of_ne hp]; decide), htail,
          List.filter_cons_of_neg (by rw [beq_false_of_ne hp]; decide)]
      · rw [if_neg heq] at htail
        rw [List.filter_cons, List.filter_cons, htail]

theorem filter_erase {conId conId' : Int} (list : List BuiltPosition) :
    ((list.eraseP fun p ↦ p.contract.conId == conId).filter fun p ↦ p.contract.conId == conId') =
      if conId' = conId then (list.filter fun p ↦ p.contract.conId == conId).tail
      else list.filter fun p ↦ p.contract.conId == conId' := by
  induction list with
  | nil => split_ifs <;> rfl
  | cons p rest ih =>
    by_cases hp : p.contract.conId = conId
    · rw [List.eraseP_cons_of_pos (by rw [hp, beq_self_eq_true])]
      split_ifs with heq
      · rw [List.filter_cons_of_pos (by rw [hp, beq_self_eq_true]), List.tail_cons, heq]
      · have hne : (conId == conId') = false := beq_false_of_ne fun h ↦ heq h.symm
        rw [List.filter_cons_of_neg (by rw [hp, hne]; decide)]
    · rw [List.eraseP_cons_of_neg (by rw [beq_false_of_ne hp]; decide)]
      split_ifs with heq
      · rw [if_pos heq] at ih
        rw [List.filter_cons_of_neg (by rw [heq, beq_false_of_ne hp]; decide), ih,
          List.filter_cons_of_neg (by rw [beq_false_of_ne hp]; decide)]
      · rw [if_neg heq] at ih
        rw [List.filter_cons, List.filter_cons, ih]

/-- **The rows after an update**, where there was at most one of the instrument: the new row, and
those of the other instruments as they were. -/
theorem filter_upsertPosition {conId conId' : Int} {row : Option BuiltPosition}
    (hrow : ∀ p ∈ row, p.contract.conId = conId) {list : List BuiltPosition}
    (hone : (list.filter fun p ↦ p.contract.conId == conId).length ≤ 1) :
    ((upsertPosition list conId row).filter fun p ↦ p.contract.conId == conId') =
      if conId' = conId then row.toList else list.filter fun p ↦ p.contract.conId == conId' := by
  have htail : (list.filter fun p ↦ p.contract.conId == conId).tail = [] := by
    rw [List.eq_nil_iff_length_eq_zero, List.length_tail]
    omega
  unfold upsertPosition
  split_ifs with hany heq heq
  · cases row with
    | none => rw [filter_erase, if_pos heq, htail]; rfl
    | some row => rw [filter_replaceFirst (hrow row rfl) list hany, if_pos heq, htail]; rfl
  · cases row with
    | none => rw [filter_erase, if_neg heq]
    | some row => rw [filter_replaceFirst (hrow row rfl) list hany, if_neg heq]
  · have hnone : (list.filter fun p ↦ p.contract.conId == conId) = [] := by
      rw [List.filter_eq_nil_iff]
      exact fun p hp h ↦ hany (List.any_eq_true.mpr ⟨p, hp, h⟩)
    rw [List.filter_append, heq, hnone, List.nil_append, List.filter_eq_self]
    intro p hp
    rw [hrow p (Option.mem_toList.mp hp), beq_self_eq_true]
  · have hother : (row.toList.filter fun p ↦ p.contract.conId == conId') = [] := by
      rw [List.filter_eq_nil_iff]
      intro p hp
      rw [hrow p (Option.mem_toList.mp hp), beq_false_of_ne (Ne.symm heq)]
      decide
    rw [List.filter_append, hother, List.append_nil]

theorem splitFirst_compositeKey {key : String} (h : ':' ∉ key.toList) (currency : String) :
    splitFirst ':' (compositeKey key currency) = some (key, currency) := by
  have hkey : compositeKey key currency = String.ofList (key.toList ++ ':' :: currency.toList) := by
    rw [compositeKey, ← String.toList_inj, String.toList_ofList, String.toList_append,
      String.toList_append, List.append_assoc]
    rfl
  rw [hkey, splitFirst_append _ h, String.ofList_toList, String.ofList_toList]

theorem compositeKey_inj {key key' currency currency' : String} (h : ':' ∉ key.toList)
    (h' : ':' ∉ key'.toList) :
    compositeKey key currency = compositeKey key' currency' ↔ key = key' ∧ currency = currency' := by
  constructor
  · intro heq
    have hsplit := splitFirst_compositeKey h currency
    rw [heq, splitFirst_compositeKey h'] at hsplit
    obtain ⟨hkey, hcurrency⟩ := Prod.mk.inj (Option.some.inj hsplit)
    exact ⟨hkey.symm, hcurrency.symm⟩
  · rintro ⟨rfl, rfl⟩
    rfl

theorem ne_compositeKey {key key' currency : String} (h : ':' ∉ key.toList) :
    key ≠ compositeKey key' currency := by
  rintro rfl
  apply h
  rw [compositeKey, String.toList_append, String.toList_append]
  exact List.mem_append_left _ (List.mem_append_right _ List.mem_cons_self)

theorem lookup_applyValue_composite {values : List (String × String)} {v : ValueReport}
    {key currency : String} (hkey : ':' ∉ key.toList) (hv : ':' ∉ v.key.toList)
    (hcurrency : currency ≠ "") :
    (applyValue values v).lookup (compositeKey key currency) =
      if v.key = key ∧ v.currency = currency then some v.val
      else values.lookup (compositeKey key currency) := by
  have hplain : ∀ m : List (String × String),
      (setKey m v.key v.val).lookup (compositeKey key currency) =
        m.lookup (compositeKey key currency) :=
    fun m ↦ lookup_setKey_of_ne (ne_compositeKey hv).symm m
  have hm : (if v.currency = "" then values
      else setKey values (compositeKey v.key v.currency) v.val).lookup (compositeKey key currency) =
        if v.key = key ∧ v.currency = currency then some v.val
        else values.lookup (compositeKey key currency) := by
    by_cases hsame : v.key = key ∧ v.currency = currency
    · obtain ⟨rfl, rfl⟩ := hsame
      rw [if_neg hcurrency, if_pos ⟨rfl, rfl⟩, lookup_setKey_self]
    rw [if_neg hsame]
    split_ifs
    · rfl
    · refine lookup_setKey_of_ne (fun heq ↦ hsame ?_) values
      exact (compositeKey_inj hv hkey).mp heq.symm
  unfold applyValue
  dsimp only
  generalize (if v.currency = "" then values
    else setKey values (compositeKey v.key v.currency) v.val) = m at hm ⊢
  split
  · exact (hplain m).trans hm
  · exact hm

/-- **The plain entry behind a value**: the value, if it is consolidated or none in `BASE` is
there. -/
theorem lookup_applyValue_plain {values : List (String × String)} {v : ValueReport} {key : String}
    (hkey : ':' ∉ key.toList) (hv : ':' ∉ v.key.toList) :
    (applyValue values v).lookup key =
      if v.key = key ∧ (v.currency = "" ∨ v.currency = "BASE" ∨
          (values.lookup (compositeKey key "BASE")).isNone) then some v.val
      else values.lookup key := by
  have hm : (if v.currency = "" then values
      else setKey values (compositeKey v.key v.currency) v.val).lookup key = values.lookup key := by
    split
    · rfl
    · exact lookup_setKey_of_ne (ne_compositeKey hkey) values
  have hbase : v.currency = "" ∨ v.currency = "BASE" ∨ ((if v.currency = "" then values
        else setKey values (compositeKey v.key v.currency) v.val).lookup
          (compositeKey v.key "BASE")).isNone ↔
      v.currency = "" ∨ v.currency = "BASE" ∨
        (values.lookup (compositeKey v.key "BASE")).isNone := by
    by_cases hempty : v.currency = ""
    · exact iff_of_true (.inl hempty) (.inl hempty)
    by_cases hother : v.currency = "BASE"
    · exact iff_of_true (.inr (.inl hother)) (.inr (.inl hother))
    have hne : compositeKey v.key "BASE" ≠ compositeKey v.key v.currency :=
      fun heq ↦ hother ((compositeKey_inj hv hv).mp heq).2.symm
    rw [if_neg hempty, lookup_setKey_of_ne hne]
  unfold applyValue
  dsimp only
  generalize (if v.currency = "" then values
    else setKey values (compositeKey v.key v.currency) v.val) = m at hm hbase ⊢
  by_cases hsame : v.key = key
  · subst hsame
    simp only [true_and, ← hbase]
    split
    · exact lookup_setKey_self m
    · exact hm
  · simp only [hsame, false_and, if_false]
    split
    · exact (lookup_setKey_of_ne (Ne.symm hsame) m).trans hm
    · exact hm

end Reports

/-! ## A buffer -/

section Buffers

/-- A buffer that was made of some reports, where others came before them: it shows the reports, and
a consolidated value of theirs unless only the others have one in `BASE`. -/
structure Mirrors (round : Decimal → Decimal) (d : AccountDownload) (older tail : List Callback) :
    Prop where
  rows : ∀ conId, (d.positions.filter fun p ↦ p.contract.conId == conId) =
    reportedRows round tail conId
  entries : ∀ key currency, ':' ∉ key.toList → currency ≠ "" →
    d.values.lookup (compositeKey key currency) = latest (Callback.valueOf key currency) tail
  plain : ∀ key val, ':' ∉ key.toList → latest (Callback.consolidatedOf key) tail = some val →
    d.values.lookup key = some val ∨ latest (Callback.valueOf key "BASE") tail = none ∧
      (latest (Callback.valueOf key "BASE") older).isSome

/-- The reports that a buffer was made of are enough. -/
structure Covers (older tail : List Callback) : Prop where
  positions : ∀ conId r, latest (Callback.reportOf conId) older = some r → r.position ≠ 0 →
    (latest (Callback.reportOf conId) tail).isSome
  base : ∀ key, (latest (Callback.valueOf key "BASE") older).isSome →
    (latest (Callback.valueOf key "BASE") tail).isSome
  plain : ∀ key, (latest (Callback.consolidatedOf key) older).isSome →
    (latest (Callback.consolidatedOf key) tail).isSome

variable {round} {d : AccountDownload} {older tail : List Callback} {c : Callback}

theorem mirrors_nil : Mirrors round {} older [] where
  rows _ := rfl
  entries _ _ _ _ := rfl
  plain _ _ _ h := by cases h

theorem length_reportedRows (history : List Callback) (conId : Int) :
    (reportedRows round history conId).length ≤ 1 := by
  rw [reportedRows]
  split
  · split_ifs
    · exact Nat.zero_le 1
    · exact le_rfl
  · exact Nat.zero_le 1

theorem latest_consolidatedOf_isSome {history : List Callback} {key : String} :
    (latest (Callback.consolidatedOf key) history).isSome ↔
      (latest (Callback.valueOf key "") history).isSome ∨
        (latest (Callback.valueOf key "BASE") history).isSome := by
  simp only [latest_isSome_iff, ← exists_or, ← and_or_left]
  refine exists_congr fun c ↦ and_congr_right fun _ ↦ ?_
  cases c with
  | value v =>
    simp only [Callback.consolidatedOf, Callback.valueOf]
    split_ifs with h h₁ h₂ <;> simp_all
  | _ => simp [Callback.consolidatedOf, Callback.valueOf]

theorem Mirrors.portfolio {r : PortfolioReport} (h : Mirrors round d older tail)
    (hok : Plain round (older ++ tail) (.portfolio r)) :
    Mirrors round (applyReport round d (.portfolio r)) older (tail ++ [.portfolio r]) := by
  have hrow := rowOf_eq hok
  rw [applyReport, hrow]
  refine ⟨fun conId ↦ ?_, ?_, ?_⟩
  · have hconId : ∀ p ∈ (if r.position = 0 then none else some (reportedRow round r)),
        p.contract.conId = r.contract.conId := by
      intro p hp
      split_ifs at hp
      · cases hp
      · cases hp
        rfl
    dsimp only
    rw [filter_upsertPosition hconId (by rw [h.rows]; exact length_reportedRows _ _), reportedRows]
    by_cases hsame : r.contract.conId = conId
    · have hreport : Callback.reportOf conId (.portfolio r) = some r := if_pos hsame
      rw [if_pos hsame.symm, latest_concat_of_some hreport]
      dsimp only
      split_ifs <;> rfl
    · have hreport : Callback.reportOf conId (.portfolio r) = none := if_neg hsame
      rw [if_neg (Ne.symm hsame), latest_concat_of_none hreport, h.rows, reportedRows]
  · intro key currency hkey hcurrency
    rw [latest_concat_of_none rfl]
    exact h.entries key currency hkey hcurrency
  · intro key val hkey hval
    rw [latest_concat_of_none rfl] at hval ⊢
    exact h.plain key val hkey hval

theorem Mirrors.value {v : ValueReport} (h : Mirrors round d older tail)
    (hok : Plain round (older ++ tail) (.value v)) :
    Mirrors round (applyReport round d (.value v)) older (tail ++ [.value v]) := by
  obtain ⟨hcolon, hcurrency⟩ := hok
  refine ⟨fun conId ↦ ?_, ?_, ?_⟩
  · rw [reportedRows, latest_concat_of_none rfl]
    exact h.rows conId
  · intro key currency hkey hnamed
    rw [latest_concat]
    refine (lookup_applyValue_composite hkey hcolon hnamed).trans ?_
    rw [h.entries key currency hkey hnamed, Callback.valueOf]
    split_ifs <;> rfl
  · intro key val hkey hval
    have hlookup : (applyValue d.values v).lookup key = _ := lookup_applyValue_plain hkey hcolon
    have hbase := h.entries key "BASE" hkey (by decide)
    by_cases hsame : v.key = key
    · subst hsame
      by_cases hconsolidated : v.currency = "" ∨ v.currency = "BASE"
      · -- a consolidated value is the last one, and takes the plain key
        have hof : Callback.consolidatedOf v.key (.value v) = some v.val :=
          if_pos ⟨rfl, hconsolidated⟩
        rw [latest_concat_of_some hof] at hval
        obtain rfl := Option.some.inj hval
        left
        refine hlookup.trans (if_pos ⟨rfl, ?_⟩)
        rcases hconsolidated with hempty | hbase
        · exact .inl hempty
        · exact .inr (.inl hbase)
      · have hof : Callback.consolidatedOf v.key (.value v) = none :=
          if_neg fun h ↦ hconsolidated h.2
        rw [not_or] at hconsolidated
        have hof' : Callback.valueOf v.key "BASE" (.value v) = none :=
          if_neg fun h ↦ hconsolidated.2 h.2
        rw [latest_concat_of_none hof] at hval
        rw [latest_concat_of_none hof']
        cases hlast : latest (Callback.valueOf v.key "BASE") tail with
        | some val' =>
          -- the value in `BASE` keeps the plain key
          have hkept : ¬ (v.key = v.key ∧ (v.currency = "" ∨ v.currency = "BASE" ∨
              (d.values.lookup (compositeKey v.key "BASE")).isNone)) := by
            rw [hbase, hlast]
            rintro ⟨-, hempty | hnamed | hnone⟩
            · exact hconsolidated.1 hempty
            · exact hconsolidated.2 hnamed
            · cases hnone
          left
          refine (hlookup.trans (if_neg hkept)).trans ?_
          refine (h.plain v.key val hkey hval).resolve_right ?_
          rintro ⟨hnone, -⟩
          rw [hlast] at hnone
          cases hnone
        | none =>
          -- without one, there is one among the older reports
          right
          refine ⟨rfl, ?_⟩
          have hsent := latest_consolidatedOf_isSome.mp (Option.isSome_of_eq_some hval)
          rw [hlast] at hsent
          have hempty := hsent.resolve_right Bool.false_ne_true
          have hnot := hcurrency hconsolidated.1 hconsolidated.2
          rw [Uncurrencied, latest_append, latest_append, hlast, Option.isSome_or, hempty,
            Option.none_or, Bool.true_or] at hnot
          exact Option.isSome_iff_ne_none.mpr fun hnone ↦ hnot ⟨rfl, hnone⟩
    · have hof : Callback.consolidatedOf key (.value v) = none := if_neg fun h ↦ hsame h.1
      have hof' : Callback.valueOf key "BASE" (.value v) = none := if_neg fun h ↦ hsame h.1
      rw [latest_concat_of_none hof] at hval
      rw [latest_concat_of_none hof']
      have hsame' : (applyReport round d (.value v)).values.lookup key = d.values.lookup key :=
        hlookup.trans (if_neg fun h ↦ hsame h.1)
      rw [hsame']
      exact h.plain key val hkey hval

theorem Mirrors.downloadEnd (h : Mirrors round d older tail) :
    Mirrors round d older (tail ++ [.downloadEnd]) := by
  refine ⟨fun conId ↦ ?_, ?_, ?_⟩
  · rw [reportedRows, latest_concat_of_none rfl]
    exact h.rows conId
  · intro key currency hkey hnamed
    rw [latest_concat_of_none rfl]
    exact h.entries key currency hkey hnamed
  · intro key val hkey hval
    rw [latest_concat_of_none rfl] at hval ⊢
    exact h.plain key val hkey hval

theorem Mirrors.report (h : Mirrors round d older tail) (hok : Plain round (older ++ tail) c) :
    Mirrors round (applyReport round d c) older (tail ++ [c]) := by
  cases c with
  | portfolio r => exact h.portfolio hok
  | value v => exact h.value hok
  | downloadEnd => exact h.downloadEnd

theorem Covers.concat (h : Covers older tail) (c : Callback) : Covers older (tail ++ [c]) where
  positions conId r hr hheld := by
    rw [latest_append, Option.isSome_or, h.positions conId r hr hheld, Bool.or_true]
  base key hsent := by
    rw [latest_append, Option.isSome_or, h.base key hsent, Bool.or_true]
  plain key hsent := by
    rw [latest_append, Option.isSome_or, h.plain key hsent, Bool.or_true]

/-- **A buffer that is made of enough** shows what was reported last. -/
theorem Mirrors.shows (h : Mirrors round d older tail) (hcovers : Covers older tail)
    (hplain : Along (Plain round) (older ++ tail)) : Shows round d (older ++ tail) where
  rows conId := by
    rw [h.rows, reportedRows, reportedRows, latest_append]
    cases hlast : latest (Callback.reportOf conId) tail with
    | some r => rfl
    | none =>
      rw [Option.none_or]
      cases hold : latest (Callback.reportOf conId) older with
      | none => rfl
      | some r =>
        dsimp only
        split_ifs with hclosed
        · rfl
        have hsome := hcovers.positions conId r hold hclosed
        rw [hlast] at hsome
        cases hsome
  entries key currency val hkey hnamed hlookup := by
    rw [latest_append, ← h.entries key currency hkey hnamed, hlookup, Option.some_or]
  plain key val hval := by
    have hkey : ':' ∉ key.toList := by
      obtain ⟨c, hc, hof⟩ := mem_of_latest hval
      obtain ⟨before, hok⟩ := hplain.of_mem hc
      cases c with
      | value v =>
        rw [Callback.consolidatedOf] at hof
        split_ifs at hof with hthis
        rw [← hthis.1]
        exact hok.1
      | portfolio r => cases hof
      | downloadEnd => cases hof
    have htail : latest (Callback.consolidatedOf key) tail = some val := by
      rw [latest_append] at hval
      cases hlast : latest (Callback.consolidatedOf key) tail with
      | some val' => rwa [hlast, Option.some_or] at hval
      | none =>
        rw [hlast, Option.none_or] at hval
        have hsome := hcovers.plain key (hval ▸ rfl)
        rw [hlast] at hsome
        cases hsome
    rcases h.plain key val hkey htail with hlookup | ⟨hnone, hsome⟩
    · exact hlookup
    have hbase := hcovers.base key hsome
    rw [hnone] at hbase
    cases hbase

end Buffers

/-! ## Runs -/

section Runs

variable {round} {history : List Callback} {c : Callback}

theorem sinceEnd_concat : sinceEnd (history ++ [c]) =
    if c = .downloadEnd then [] else sinceEnd history ++ [c] := by
  rw [sinceEnd, List.foldl_append]
  rfl

theorem Complete.covers {older tail : List Callback} (h : Complete (older ++ tail))
    (htail : sinceEnd (older ++ tail) = tail) (hplain : Plain round (older ++ tail) .downloadEnd) :
    Covers older tail := by
  have hbase : ∀ key, (latest (Callback.valueOf key "BASE") (older ++ tail)).isSome →
      (latest (Callback.valueOf key "BASE") tail).isSome := by
    intro key hsent
    have hagain := h.base key hsent
    rwa [htail] at hagain
  refine ⟨fun conId r hr hheld ↦ ?_, fun key hsent ↦ ?_, fun key hsent ↦ ?_⟩
  · cases hlast : latest (Callback.reportOf conId) tail with
    | some r' => rfl
    | none =>
      have hagain := h.positions conId r (by rw [latest_append, hlast, hr, Option.none_or]) hheld
      rwa [htail, hlast] at hagain
  · apply hbase
    rw [latest_append, Option.isSome_or, hsent, Bool.or_true]
  · rw [latest_consolidatedOf_isSome] at hsent ⊢
    by_cases hsome : (latest (Callback.valueOf key "BASE") (older ++ tail)).isSome
    · exact .inr (hbase key hsome)
    left
    rw [Bool.not_eq_true, Option.isSome_eq_false_iff, Option.isNone_iff_eq_none] at hsome
    have hempty : (latest (Callback.valueOf key "") older).isSome := by
      refine hsent.resolve_right fun hold ↦ ?_
      rw [latest_append, Option.or_eq_none_iff] at hsome
      rw [hsome.2] at hold
      cases hold
    have hagain := hplain key ⟨by rw [latest_append, Option.isSome_or, hempty, Bool.or_true], hsome⟩
    rwa [htail] at hagain

/-- **What the buffers are made of**: the pending one of the reports since the last download ended,
the live one of enough reports. -/
structure Buffered (round : Decimal → Decimal) (b : Bridge) (history : List Callback) : Prop where
  pending : ∃ d older, b.accountCachePending = some d ∧ history = older ++ sinceEnd history ∧
    Mirrors round d older (sinceEnd history)
  live : .downloadEnd ∈ history → ∃ d older tail, b.accountCache = some d ∧
    history = older ++ tail ∧ Mirrors round d older tail ∧ Covers older tail

theorem Buffered.report {b : Bridge} (h : Buffered round b history) (hok : Plain round history c)
    (hc : c ≠ .downloadEnd) : Buffered round (b.callback round c) (history ++ [c]) := by
  have hstep : b.callback round c =
      { b with
        accountCachePending := b.accountCachePending.map fun d ↦ applyReport round d c
        accountCache := b.accountCache.map fun d ↦ applyReport round d c } := by
    cases c with
    | downloadEnd => exact absurd rfl hc
    | _ => rfl
  rw [hstep]
  constructor
  · obtain ⟨d, older, hd, hhistory, hmirrors⟩ := h.pending
    rw [sinceEnd_concat, if_neg hc]
    refine ⟨applyReport round d c, older, by rw [hd]; rfl, ?_, hmirrors.report ?_⟩
    · rw [← List.append_assoc, ← hhistory]
    · rw [← hhistory]
      exact hok
  · intro hend
    have hbefore : .downloadEnd ∈ history :=
      (List.mem_append.mp hend).resolve_right fun hmem ↦ hc (List.mem_singleton.mp hmem).symm
    obtain ⟨d, older, tail, hd, rfl, hmirrors, hcovers⟩ := h.live hbefore
    exact ⟨applyReport round d c, older, tail ++ [c], by rw [hd]; rfl, List.append_assoc .., hmirrors.report hok,
      hcovers.concat c⟩

theorem Buffered.downloadEnd {b : Bridge} (h : Buffered round b history)
    (hcomplete : Complete history)
    (hok : Plain round history .downloadEnd) :
    Buffered round (b.callback round .downloadEnd) (history ++ [.downloadEnd]) := by
  obtain ⟨d, older, hd, hhistory, hmirrors⟩ := h.pending
  rw [Bridge.callback, hd]
  constructor
  · rw [sinceEnd_concat, if_pos rfl]
    exact ⟨{}, history ++ [.downloadEnd], rfl, (List.append_nil _).symm, mirrors_nil⟩
  intro _
  refine ⟨d, older, sinceEnd history ++ [.downloadEnd], rfl, ?_, hmirrors.downloadEnd, ?_⟩
  · rw [← List.append_assoc, ← hhistory]
  refine Covers.concat ?_ _
  rw [hhistory] at hcomplete hok
  exact hcomplete.covers (by rw [← hhistory]) hok

theorem buffered_callbacks {b : Bridge} (hnew : b.accountSubscribed = false) (acctCode : String)
    (hcomplete : CompleteDownloads history) (hplain : Along (Plain round) history) :
    Buffered round ((b.startAccountSubscription acctCode).callbacks round history) history := by
  induction history using List.reverseRecOn with
  | nil =>
    rw [Bridge.startAccountSubscription, hnew]
    exact ⟨⟨{}, [], rfl, rfl, mirrors_nil⟩, fun h ↦ absurd h List.not_mem_nil⟩
  | append_singleton history c ih =>
    rw [CompleteDownloads, along_concat] at hcomplete
    rw [along_concat] at hplain
    have hbefore := ih hcomplete.1 hplain.1
    rw [Bridge.callbacks, List.foldl_append]
    by_cases hc : c = .downloadEnd
    · subst hc
      exact hbefore.downloadEnd (hcomplete.2 rfl) hplain.2
    · exact hbefore.report hplain.2 hc

/-- **The account cache shows the last report**, from the first download on. -/
theorem cache_shows {b : Bridge} (hnew : b.accountSubscribed = false) (acctCode : String)
    (hcomplete : CompleteDownloads history) (hplain : Along (Plain round) history)
    (hend : .downloadEnd ∈ history) :
    ∃ d, ((b.startAccountSubscription acctCode).callbacks round history).accountCache = some d ∧
      Shows round d history := by
  obtain ⟨d, older, tail, hd, rfl, hmirrors, hcovers⟩ :=
    (buffered_callbacks hnew acctCode hcomplete hplain).live hend
  exact ⟨d, hd, hmirrors.shows hcovers hplain⟩

theorem complete_of_first (h : sinceEnd history = history) : Complete history where
  positions conId r hr _ := by
    rw [h, hr]
    rfl
  base key hsent := by
    rw [h]
    exact hsent

def microBitcoin (multiplier : Decimal) : PortfolioReport where
  contract :=
    { symbol := "MBT", secType := "FUT", currency := "USD", multiplier := some multiplier, conId := 1 }
  position := 1
  marketPrice := 60000
  marketValue := 60000 * multiplier
  averageCost := 60000 * multiplier
  unrealizedPNL := 0
  realizedPNL := 0

def download (multiplier : Decimal) : List Callback :=
  [.value ⟨"NetLiquidation", "100000", "BASE"⟩, .portfolio (microBitcoin multiplier), .downloadEnd]

theorem completeDownloads_download (multiplier : Decimal) :
    CompleteDownloads (download multiplier) := by
  have hhistory : download multiplier = (([] ++ [.value ⟨"NetLiquidation", "100000", "BASE"⟩]) ++
      [.portfolio (microBitcoin multiplier)]) ++ [.downloadEnd] := rfl
  rw [hhistory, CompleteDownloads, along_concat, along_concat, along_concat]
  exact ⟨⟨⟨along_nil, fun h ↦ by cases h⟩, fun h ↦ by cases h⟩, fun _ ↦ complete_of_first rfl⟩

theorem cache_shows_download :
    ∃ d, ((Bridge.startAccountSubscription {} "U1").callbacks id (download 10)).accountCache = some d ∧
      Shows id d (download 10) := by
  refine cache_shows rfl "U1" (completeDownloads_download 10) ?_ (by decide)
  have hhistory : download 10 = (([] ++ [.value ⟨"NetLiquidation", "100000", "BASE"⟩]) ++
      [.portfolio (microBitcoin 10)]) ++ [.downloadEnd] := rfl
  rw [hhistory, along_concat, along_concat, along_concat]
  refine ⟨⟨⟨along_nil, by decide, fun _ h ↦ absurd rfl h⟩, fun _ ↦ by decide +kernel⟩, ?_⟩
  rintro key ⟨hsent, -⟩
  obtain ⟨c, hc, hof⟩ := latest_isSome_iff.mp hsent
  rcases List.mem_append.mp hc with hc | hc <;> rw [List.mem_singleton.mp hc] at hof
  · rw [Callback.valueOf, if_neg fun h ↦ absurd h.2 (by decide)] at hof
    cases hof
  · cases hof

/-- **The cost of a unit is not always shown**: it is that of the contract, where a contract is less
than a unit. -/
theorem contract_cost_shown :
    ¬ ∀ (round : Decimal → Decimal) (b : Bridge) (acctCode : String) (history : List Callback),
      b.accountSubscribed = false → CompleteDownloads history → .downloadEnd ∈ history →
        ∃ d, ((b.startAccountSubscription acctCode).callbacks round history).accountCache = some d ∧
          Shows round d history := by
  intro h
  obtain ⟨d, hd, hshows⟩ := h id {} "U1" (download (1 / 10)) rfl (completeDownloads_download _)
    (by decide +kernel)
  have hshown : ((((Bridge.startAccountSubscription {} "U1").callbacks id
      (download (1 / 10))).accountCache.map AccountDownload.positions).getD []).map
        (fun p ↦ (p.contract.conId, p.avgCost)) = [(1, 6000)] := by
    decide +kernel
  have hreported : (reportedRows id (download (1 / 10)) 1).map BuiltPosition.avgCost = [60000] := by
    decide +kernel
  rw [hd] at hshown
  obtain ⟨p, hp, heq⟩ := List.mem_map.mp (hshown ▸ List.mem_cons_self :
    ((1 : Int), (6000 : Decimal)) ∈ d.positions.map fun p ↦ (p.contract.conId, p.avgCost))
  obtain ⟨hconId, havg⟩ := Prod.mk.inj heq
  have hmem : p ∈ reportedRows id (download (1 / 10)) 1 := by
    rw [← hshows.rows 1, List.mem_filter, hconId]
    exact ⟨hp, rfl⟩
  have hsix := List.mem_map_of_mem (f := BuiltPosition.avgCost) hmem
  rw [hreported, havg] at hsix
  exact absurd hsix (by decide +kernel)

end Runs

end OpenAlice.Trading.Brokers.AccountCache
