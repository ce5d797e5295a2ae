import Mathlib.Data.List.Basic

/-!
# Lists patched by keys

Some elements of a list have a key.  `putKey` exchanges the element of a key, or adds one at the end,
and `dropKey` drops it.  A list is `Patched` from another one under some keys, the ones that are owned,
when it comes from it by exchanges of their elements and by new elements for keys that the other
list does not have.  What is patched can be given back key by key; when no key is owned any more,
the lists are the same.

Nothing here knows what the elements are.
-/

universe u v

namespace OpenAlice.Data

variable {α : Type u} {κ : Type v}

def Lacks (key : α → Option κ) (l : List α) (k : κ) : Prop := ∀ a ∈ l, key a ≠ some k

/-- `l` with elements of owned keys exchanged and, where `base` has none, added. -/
inductive Patched (key : α → Option κ) (base : List α) (owned : κ → Prop) :
    List α → List α → Prop
  | nil : Patched key base owned [] []
  | keep {a : α} {l m : List α} : (∀ k, owned k → key a ≠ some k) →
      Patched key base owned l m → Patched key base owned (a :: l) (a :: m)
  | exchanged {a b : α} {k : κ} {l m : List α} : owned k → key a = some k → key b = some k →
      Patched key base owned l m → Patched key base owned (a :: l) (b :: m)
  | added {b : α} {k : κ} {l m : List α} : owned k → key b = some k → Lacks key base k →
      Patched key base owned l m → Patched key base owned l (b :: m)

section Patched

variable {key : α → Option κ} {base l m : List α} {owned : κ → Prop} {k : κ} {a : α}

theorem patched_refl (l : List α) : Patched key base (fun _ ↦ False) l l := by
  induction l with
  | nil => exact .nil
  | cons a l ih => exact .keep (fun _ h ↦ h.elim) ih

theorem Patched.eq_of_lacks (h : Patched key base owned l m)
    (hlacks : ∀ k, owned k → Lacks key m k) :
    m = l := by
  induction h with
  | nil => rfl
  | keep _ _ ih => rw [ih fun k hk ↦ (List.forall_mem_cons.mp (hlacks k hk)).2]
  | exchanged hk _ hb => exact absurd hb (hlacks _ hk _ (.head _))
  | added hk hb => exact absurd hb (hlacks _ hk _ (.head _))

theorem Patched.eq_of_none (h : Patched key base owned l m) (hnone : ∀ k, ¬ owned k) : m = l :=
  h.eq_of_lacks fun k hk ↦ absurd hk (hnone k)

theorem Patched.filter_eq (h : Patched key base owned l m) (p : α → Bool)
    (hp : ∀ a k, owned k → key a = some k → p a = false) : m.filter p = l.filter p := by
  induction h with
  | nil => rfl
  | keep _ _ ih => rw [List.filter_cons, List.filter_cons, ih]
  | exchanged hk ha hb _ ih =>
    rw [List.filter_cons_of_neg (by rw [hp _ _ hk hb]; exact Bool.false_ne_true),
      List.filter_cons_of_neg (by rw [hp _ _ hk ha]; exact Bool.false_ne_true), ih]
  | added hk hb _ _ ih =>
    rw [List.filter_cons_of_neg (by rw [hp _ _ hk hb]; exact Bool.false_ne_true), ih]

theorem Patched.mono {owned' : κ → Prop} (h : Patched key base owned l m)
    (hle : ∀ k, owned k → owned' k) : Patched key base owned' l m := by
  classical
  induction h with
  | nil => exact .nil
  | @keep a l m _ _ ih =>
    by_cases hown : ∃ k, owned' k ∧ key a = some k
    · obtain ⟨k, hk, ha⟩ := hown
      exact .exchanged hk ha ha ih
    · exact .keep (fun k hk ha ↦ hown ⟨k, hk, ha⟩) ih
  | exchanged hk ha hb _ ih => exact .exchanged (hle _ hk) ha hb ih
  | added hk hb hlacks _ ih => exact .added (hle _ hk) hb hlacks ih

theorem Patched.lacks (h : Patched key base owned l m) (hm : Lacks key m k) : Lacks key l k := by
  induction h with
  | nil => exact hm
  | keep _ _ ih =>
    obtain ⟨ha, hm⟩ := List.forall_mem_cons.mp hm
    exact List.forall_mem_cons.mpr ⟨ha, ih hm⟩
  | exchanged _ ha' hb' _ ih =>
    obtain ⟨hb, hm⟩ := List.forall_mem_cons.mp hm
    exact List.forall_mem_cons.mpr ⟨fun ha ↦ hb (hb'.trans (ha'.symm.trans ha)), ih hm⟩
  | added _ _ _ _ ih => exact ih (List.forall_mem_cons.mp hm).2

theorem Patched.forget {owned' : κ → Prop} (h : Patched key base owned l m)
    (hsame : ∀ k, owned k → ¬ owned' k → ∀ a ∈ l, ∀ b ∈ m, key a = some k → key b = some k → b = a)
    (hnew : ∀ k, owned k → ¬ owned' k → Lacks key base k → Lacks key m k) :
    Patched key base (fun k ↦ owned k ∧ owned' k) l m := by
  classical
  induction h with
  | nil => exact .nil
  | keep hown _ ih =>
    refine .keep (fun k hk ↦ hown k hk.1) (ih ?_ ?_)
    · exact fun k hk hk' a ha b hb ↦ hsame k hk hk' a (.tail _ ha) b (.tail _ hb)
    · exact fun k hk hk' hbase ↦ (List.forall_mem_cons.mp (hnew k hk hk' hbase)).2
  | @exchanged a b k l m hk ha hb _ ih =>
    have hrest := ih (fun k hk hk' a ha b hb ↦ hsame k hk hk' a (.tail _ ha) b (.tail _ hb))
      fun k hk hk' hbase ↦ (List.forall_mem_cons.mp (hnew k hk hk' hbase)).2
    by_cases hk' : owned' k
    · exact .exchanged ⟨hk, hk'⟩ ha hb hrest
    obtain rfl := hsame k hk hk' a (.head _) b (.head _) ha hb
    refine .keep (fun k'' hk'' heq ↦ hk' ?_) hrest
    exact Option.some.inj (heq.symm.trans ha) ▸ hk''.2
  | @added b k l m hk hb hbase _ ih =>
    have hrest := ih (fun k hk hk' a ha b hb ↦ hsame k hk hk' a ha b (.tail _ hb))
      fun k hk hk' hbase ↦ (List.forall_mem_cons.mp (hnew k hk hk' hbase)).2
    have hk' : owned' k := by
      by_contra hk'
      exact (List.forall_mem_cons.mp (hnew k hk hk' hbase)).1 hb
    exact .added ⟨hk, hk'⟩ hb hbase hrest

theorem Patched.concat (h : Patched key base owned l m) (hk : owned k) (ha : key a = some k)
    (hlacks : Lacks key base k) : Patched key base owned l (m ++ [a]) := by
  induction h with
  | nil => exact .added hk ha hlacks .nil
  | keep hown _ ih => exact .keep hown ih
  | exchanged hk' ha' hb' _ ih => exact .exchanged hk' ha' hb' ih
  | added hk' hb' hlacks' _ ih => exact .added hk' hb' hlacks' ih

end Patched

/-! ## The operations -/

variable [DecidableEq κ]

def exchangeKey (key : α → Option κ) (k : κ) (a : α) (l : List α) : List α :=
  l.map fun b ↦ if key b = some k then a else b

def dropKey (key : α → Option κ) (k : κ) (l : List α) : List α := l.filter (key · ≠ some k)

section Operations

variable {key : α → Option κ} {base l m : List α} {owned : κ → Prop} {k : κ} {a : α}

@[simp] theorem exchangeKey_cons_self {b : α} (hb : key b = some k) :
    exchangeKey key k a (b :: l) = a :: exchangeKey key k a l := by
  rw [exchangeKey, List.map_cons, if_pos hb]
  rfl

theorem exchangeKey_cons_of_ne {b : α} (hb : key b ≠ some k) :
    exchangeKey key k a (b :: l) = b :: exchangeKey key k a l := by
  rw [exchangeKey, List.map_cons, if_neg hb]
  rfl

@[simp] theorem dropKey_cons_self {b : α} (hb : key b = some k) :
    dropKey key k (b :: l) = dropKey key k l :=
  List.filter_cons_of_neg (by simp [hb])

theorem dropKey_cons_of_ne {b : α} (hb : key b ≠ some k) :
    dropKey key k (b :: l) = b :: dropKey key k l :=
  List.filter_cons_of_pos (decide_eq_true hb)

theorem exchangeKey_of_lacks (h : Lacks key l k) : exchangeKey key k a l = l := by
  refine (List.map_congr_left fun b hb ↦ ?_).trans l.map_id
  exact if_neg (h b hb)

theorem dropKey_of_lacks (h : Lacks key l k) : dropKey key k l = l :=
  List.filter_eq_self.mpr fun b hb ↦ decide_eq_true (h b hb)

theorem map_key_exchangeKey (ha : key a = some k) (l : List α) :
    (exchangeKey key k a l).map key = l.map key := by
  rw [exchangeKey, List.map_map]
  refine List.map_congr_left fun b _ ↦ ?_
  rw [Function.comp_apply]
  split_ifs with hb
  · rw [ha, hb]
  · rfl

theorem lacks_dropKey_self (l : List α) : Lacks key (dropKey key k l) k :=
  fun _ hb ↦ of_decide_eq_true (List.mem_filter.mp hb).2

theorem Patched.exchange (h : Patched key base owned l m) (hk : owned k) (ha : key a = some k) :
    Patched key base owned l (exchangeKey key k a m) := by
  induction h with
  | nil => exact .nil
  | keep hown _ ih =>
    rw [exchangeKey_cons_of_ne (hown k hk)]
    exact .keep hown ih
  | @exchanged a' b k' l m hk' ha' hb' _ ih =>
    by_cases hb : key b = some k
    · rw [exchangeKey_cons_self hb]
      obtain rfl := Option.some.inj (hb'.symm.trans hb)
      exact .exchanged hk ha' ha ih
    · rw [exchangeKey_cons_of_ne hb]
      exact .exchanged hk' ha' hb' ih
  | @added b k' l m hk' hb' hlacks _ ih =>
    by_cases hb : key b = some k
    · rw [exchangeKey_cons_self hb]
      obtain rfl := Option.some.inj (hb'.symm.trans hb)
      exact .added hk ha hlacks ih
    · rw [exchangeKey_cons_of_ne hb]
      exact .added hk' hb' hlacks ih

theorem Patched.drop (h : Patched key base owned l m) (hlacks : Lacks key l k) :
    Patched key base owned l (dropKey key k m) := by
  induction h with
  | nil => exact .nil
  | keep hown _ ih =>
    obtain ⟨ha, hl⟩ := List.forall_mem_cons.mp hlacks
    rw [dropKey_cons_of_ne ha]
    exact .keep hown (ih hl)
  | exchanged hk' ha' hb' _ ih =>
    obtain ⟨ha, hl⟩ := List.forall_mem_cons.mp hlacks
    rw [dropKey_cons_of_ne fun hb ↦ ha (ha'.trans (hb'.symm.trans hb))]
    exact .exchanged hk' ha' hb' (ih hl)
  | @added b k' l m hk' hb' hbase _ ih =>
    by_cases hb : key b = some k
    · rw [dropKey_cons_self hb]
      exact ih hlacks
    · rw [dropKey_cons_of_ne hb]
      exact .added hk' hb' hbase (ih hlacks)

theorem Patched.restore (h : Patched key base owned l m) (hk : owned k) (ha : key a = some k)
    (hone : ∀ b ∈ l, key b = some k → b = a) (hbase : ¬ Lacks key base k) :
    Patched key base (fun k' ↦ owned k' ∧ k' ≠ k) l (exchangeKey key k a m) := by
  induction h with
  | nil => exact .nil
  | keep hown _ ih =>
    rw [exchangeKey_cons_of_ne (hown k hk)]
    exact .keep (fun k' hk' ↦ hown k' hk'.1) (ih (List.forall_mem_cons.mp hone).2)
  | @exchanged a' b k' l m hk' ha' hb' _ ih =>
    obtain ⟨hfirst, hrest⟩ := List.forall_mem_cons.mp hone
    by_cases hb : key b = some k
    · rw [exchangeKey_cons_self hb]
      obtain rfl := Option.some.inj (hb'.symm.trans hb)
      obtain rfl := hfirst ha'
      refine .keep (fun k'' hk'' heq ↦ hk''.2 ?_) (ih hrest)
      exact Option.some.inj (heq.symm.trans ha)
    · rw [exchangeKey_cons_of_ne hb]
      refine .exchanged ⟨hk', ?_⟩ ha' hb' (ih hrest)
      rintro rfl
      exact hb hb'
  | @added b k' l m hk' hb' hlacks _ ih =>
    have hne : k' ≠ k := by
      rintro rfl
      exact hbase hlacks
    have hb : key b ≠ some k := fun hb ↦ hne (Option.some.inj (hb'.symm.trans hb))
    rw [exchangeKey_cons_of_ne hb]
    exact .added ⟨hk', hne⟩ hb' hlacks (ih hone)

theorem Patched.release (h : Patched key base owned l m) (hk : owned k) (hlacks : Lacks key l k) :
    Patched key base (fun k' ↦ owned k' ∧ k' ≠ k) l (dropKey key k m) := by
  induction h with
  | nil => exact .nil
  | keep hown _ ih =>
    rw [dropKey_cons_of_ne (hown k hk)]
    exact .keep (fun k' hk' ↦ hown k' hk'.1) (ih (List.forall_mem_cons.mp hlacks).2)
  | @exchanged a b k' l m hk' ha' hb' _ ih =>
    obtain ⟨ha, hl⟩ := List.forall_mem_cons.mp hlacks
    have hne : k' ≠ k := by
      rintro rfl
      exact ha ha'
    rw [dropKey_cons_of_ne fun hb ↦ hne (Option.some.inj (hb'.symm.trans hb))]
    exact .exchanged ⟨hk', hne⟩ ha' hb' (ih hl)
  | @added b k' l m hk' hb' hbase _ ih =>
    by_cases hb : key b = some k
    · rw [dropKey_cons_self hb]
      exact ih hlacks
    rw [dropKey_cons_of_ne hb]
    refine .added ⟨hk', ?_⟩ hb' hbase (ih hlacks)
    rintro rfl
    exact hb hb'

end Operations

end OpenAlice.Data
