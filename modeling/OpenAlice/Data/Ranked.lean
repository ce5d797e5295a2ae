import Mathlib.Data.List.DropRight
import Mathlib.Data.List.Induction
import Mathlib.Data.List.Sort
import Mathlib.Order.Defs.LinearOrder

/-!
# Lists sorted by a rank

`sortRank rank l` is `l` sorted by rank, ascending, where elements of one rank keep their
order: what a stable sort makes of it.  `(sortRank rank l).rtake n` are the `n` elements of the
highest ranks, the later ones first where ranks are equal.

A stable sort goes element by element (`sortRank_concat`), and so do the highest ranked
(`rtake_sortRank_concat`): a window of them can be kept by inserting each new element and
dropping the lowest ranked.

Nothing here knows what the elements are.
-/

universe u v

namespace OpenAlice.Data

variable {α : Type u} {β : Type v} [LinearOrder β] (rank : α → β)

def insertRank (a : α) (l : List α) : List α :=
  l.orderedInsert (fun b c ↦ rank b < rank c) a

def sortRank (l : List α) : List α := l.foldl (fun sorted a ↦ insertRank rank a sorted) []

def Ranked (l : List α) : Prop := l.Pairwise fun a b ↦ rank a ≤ rank b

variable {rank} {a b : α} {l : List α} {n : Nat}

/-! ## Inserting -/

theorem insertRank_of_lt (h : ∀ b ∈ l, rank a < rank b) : insertRank rank a l = a :: l := by
  cases l with
  | nil => rfl
  | cons b l => exact List.orderedInsert_cons_of_le _ l (h b List.mem_cons_self)

theorem insertRank_cons_of_le (h : rank b ≤ rank a) :
    insertRank rank a (b :: l) = b :: insertRank rank a l :=
  List.orderedInsert_of_not_le _ l (not_lt_of_ge h)

theorem insertRank_cons_of_lt (h : rank a < rank b) : insertRank rank a (b :: l) = a :: b :: l :=
  List.orderedInsert_cons_of_le _ l h

theorem insertRank_of_le (h : ∀ b ∈ l, rank b ≤ rank a) : insertRank rank a l = l ++ [a] := by
  induction l with
  | nil => rfl
  | cons b l ih =>
    rw [List.forall_mem_cons] at h
    rw [insertRank_cons_of_le h.1, ih h.2, List.cons_append]

theorem insertRank_perm (a : α) (l : List α) : (insertRank rank a l).Perm (a :: l) :=
  List.perm_orderedInsert _ a l

theorem mem_insertRank : b ∈ insertRank rank a l ↔ b = a ∨ b ∈ l := by
  rw [(insertRank_perm a l).mem_iff, List.mem_cons]

@[simp] theorem length_insertRank (a : α) (l : List α) :
    (insertRank rank a l).length = l.length + 1 :=
  (insertRank_perm a l).length_eq

theorem ranked_nil : Ranked rank [] := .nil

theorem Ranked.tail (h : Ranked rank (b :: l)) : Ranked rank l := (List.pairwise_cons.mp h).2

theorem Ranked.head_le (h : Ranked rank (b :: l)) : ∀ c ∈ l, rank b ≤ rank c :=
  (List.pairwise_cons.mp h).1

theorem Ranked.lt_of_lt (h : Ranked rank (b :: l)) (hlt : rank a < rank b) :
    ∀ c ∈ b :: l, rank a < rank c :=
  List.forall_mem_cons.mpr ⟨hlt, fun c hc ↦ lt_of_lt_of_le hlt (h.head_le c hc)⟩

theorem Ranked.insert (h : Ranked rank l) (a : α) : Ranked rank (insertRank rank a l) := by
  induction l with
  | nil => exact List.pairwise_singleton ..
  | cons b l ih =>
    by_cases hlt : rank a < rank b
    · rw [insertRank_cons_of_lt hlt]
      exact List.pairwise_cons.mpr ⟨fun c hc ↦ le_of_lt (h.lt_of_lt hlt c hc), h⟩
    rw [insertRank_cons_of_le (le_of_not_gt hlt)]
    refine List.pairwise_cons.mpr ⟨fun c hc ↦ ?_, ih h.tail⟩
    rcases mem_insertRank.mp hc with rfl | hc
    · exact le_of_not_gt hlt
    · exact h.head_le c hc

theorem Ranked.filter_insert (h : Ranked rank l) (p : α → Bool) (a : α) :
    (insertRank rank a l).filter p =
      if p a = true then insertRank rank a (l.filter p) else l.filter p := by
  induction l with
  | nil => exact List.filter_cons
  | cons b l ih =>
    by_cases hlt : rank a < rank b
    · have hfilter : insertRank rank a ((b :: l).filter p) = a :: (b :: l).filter p :=
        insertRank_of_lt fun c hc ↦ h.lt_of_lt hlt c (List.mem_of_mem_filter hc)
      rw [insertRank_cons_of_lt hlt, List.filter_cons, hfilter]
    have hle := le_of_not_gt hlt
    rw [insertRank_cons_of_le hle, List.filter_cons, List.filter_cons, ih h.tail]
    split_ifs
    · rw [insertRank_cons_of_le hle]
    · rfl
    · rfl
    · rfl

/-! ## Sorting -/

theorem sortRank_concat (l : List α) (a : α) :
    sortRank rank (l ++ [a]) = insertRank rank a (sortRank rank l) := by
  rw [sortRank, List.foldl_append, sortRank]
  rfl

theorem sortRank_perm (l : List α) : (sortRank rank l).Perm l := by
  induction l using List.reverseRecOn with
  | nil => exact .nil
  | append_singleton l a ih =>
    rw [sortRank_concat]
    exact (insertRank_perm a _).trans ((ih.cons a).trans (List.perm_append_singleton a l).symm)

theorem mem_sortRank : a ∈ sortRank rank l ↔ a ∈ l := (sortRank_perm l).mem_iff

@[simp] theorem length_sortRank (l : List α) : (sortRank rank l).length = l.length :=
  (sortRank_perm l).length_eq

theorem ranked_sortRank (l : List α) : Ranked rank (sortRank rank l) := by
  induction l using List.reverseRecOn with
  | nil => exact ranked_nil
  | append_singleton l a ih =>
    rw [sortRank_concat]
    exact ih.insert a

theorem filter_sortRank (p : α → Bool) (l : List α) :
    (sortRank rank l).filter p = sortRank rank (l.filter p) := by
  induction l using List.reverseRecOn with
  | nil => rfl
  | append_singleton l a ih =>
    rw [sortRank_concat, (ranked_sortRank l).filter_insert, ih, List.filter_append,
      List.filter_singleton]
    cases p a with
    | true => exact (if_pos rfl).trans (sortRank_concat _ a).symm
    | false => exact (if_neg Bool.false_ne_true).trans (by rw [cond_false, List.append_nil])

theorem Ranked.sort_eq (h : Ranked rank l) : sortRank rank l = l := by
  induction l using List.reverseRecOn with
  | nil => rfl
  | append_singleton l a ih =>
    obtain ⟨hl, -, hle⟩ := List.pairwise_append.mp h
    rw [sortRank_concat, ih hl, insertRank_of_le fun b hb ↦ hle b hb a List.mem_cons_self]

theorem sortRank_cons_of_le (h : ∀ b ∈ l, rank a ≤ rank b) :
    sortRank rank (a :: l) = a :: sortRank rank l := by
  induction l using List.reverseRecOn with
  | nil => rfl
  | append_singleton l b ih =>
    rw [List.forall_mem_append] at h
    rw [← List.cons_append, sortRank_concat, ih h.1,
      insertRank_cons_of_le (h.2 b List.mem_cons_self), ← sortRank_concat]

theorem Ranked.cut (h : Ranked rank l) (c : β) :
    l = l.filter (rank · < c) ++ (l.filter (rank · = c) ++ l.filter (c < rank ·)) := by
  induction l with
  | nil => rfl
  | cons b l ih =>
    have hcut := ih h.tail
    simp only [List.filter_cons, decide_eq_true_eq]
    rcases lt_trichotomy (rank b) c with hlt | rfl | hgt
    · rw [if_pos hlt, if_neg (ne_of_lt hlt), if_neg (not_lt_of_gt hlt), List.cons_append]
      exact congrArg (b :: ·) hcut
    · have hnil : l.filter (rank · < rank b) = [] := by
        rw [List.filter_eq_nil_iff]
        exact fun a ha hlt ↦ not_lt_of_ge (h.head_le a ha) (of_decide_eq_true hlt)
      rw [hnil, List.nil_append] at hcut
      rw [if_neg (lt_irrefl _), if_pos rfl, if_neg (lt_irrefl _), hnil, List.nil_append,
        List.cons_append]
      exact congrArg (b :: ·) hcut
    · have hnone : ∀ p : α → Bool, (∀ a, c < rank a → p a = false) → l.filter p = [] := by
        intro p hp
        rw [List.filter_eq_nil_iff]
        exact fun a ha ↦ by rw [hp a (lt_of_lt_of_le hgt (h.head_le a ha))]; exact Bool.false_ne_true
      have hbelow := hnone (rank · < c) fun a ha ↦ decide_eq_false (not_lt_of_gt ha)
      have hequal := hnone (rank · = c) fun a ha ↦ decide_eq_false (ne_of_gt ha)
      rw [hbelow, hequal, List.nil_append, List.nil_append] at hcut
      rw [if_neg (not_lt_of_gt hgt), if_neg (ne_of_gt hgt), if_pos hgt, hbelow, hequal,
        List.nil_append, List.nil_append]
      exact congrArg (b :: ·) hcut

theorem map_insertRank {γ : Type*} (f : γ → α) (c : γ) (l : List γ) :
    (insertRank (fun c ↦ rank (f c)) c l).map f = insertRank rank (f c) (l.map f) := by
  induction l with
  | nil => rfl
  | cons d l ih =>
    by_cases hlt : rank (f c) < rank (f d)
    · have hinsert : insertRank (fun c ↦ rank (f c)) c (d :: l) = c :: d :: l :=
        insertRank_cons_of_lt hlt
      rw [hinsert, List.map_cons, List.map_cons, insertRank_cons_of_lt hlt]
    have hle := le_of_not_gt hlt
    have hinsert : insertRank (fun c ↦ rank (f c)) c (d :: l) =
        d :: insertRank (fun c ↦ rank (f c)) c l := insertRank_cons_of_le hle
    rw [hinsert, List.map_cons, List.map_cons, insertRank_cons_of_le hle, ih]

theorem map_sortRank {γ : Type*} (f : γ → α) (l : List γ) :
    (sortRank (fun c ↦ rank (f c)) l).map f = sortRank rank (l.map f) := by
  induction l using List.reverseRecOn with
  | nil => rfl
  | append_singleton l c ih =>
    rw [sortRank_concat, map_insertRank, ih, List.map_append, List.map_singleton, sortRank_concat]

/-! ## The first of a list -/

theorem take_filter_of_forall {p : α → Bool} (h : ∀ a ∈ l.take n, p a = true) :
    (l.filter p).take n = l.take n := by
  induction l generalizing n with
  | nil => rfl
  | cons a l ih =>
    cases n with
    | zero => rfl
    | succ n =>
      rw [List.take_succ_cons, List.forall_mem_cons] at h
      rw [List.filter_cons_of_pos h.1, List.take_succ_cons, List.take_succ_cons, ih h.2]

/-- **Two choices with the same first elements**: of elements that are told apart, and of which each
is in one of the choices, the first are in both. -/
theorem forall_of_take_filter_eq {γ : Type*} {f : α → γ} {p q : α → Bool} (hnodup : (l.map f).Nodup)
    (hsome : ∀ a ∈ l, p a = true ∨ q a = true)
    (heq : ((l.filter p).take n).map f = ((l.filter q).take n).map f) :
    ∀ a ∈ l.take n, p a = true ∧ q a = true := by
  induction l generalizing n with
  | nil => exact fun a ha ↦ absurd (List.mem_of_mem_take ha) List.not_mem_nil
  | cons a l ih =>
    rw [List.map_cons, List.nodup_cons] at hnodup
    rw [List.forall_mem_cons] at hsome
    -- what is not chosen first stands in the rest
    have hrest : ∀ (r : α → Bool) (m : Nat), f a ∉ ((l.filter r).take m).map f :=
      fun r m hmem ↦ hnodup.1 (List.map_subset f
        (fun b hb ↦ List.mem_of_mem_filter (List.mem_of_mem_take hb)) hmem)
    cases n with
    | zero => exact fun b hb ↦ absurd hb List.not_mem_nil
    | succ n =>
      have hboth : p a = true ∧ q a = true := by
        by_contra hnot
        rcases hsome.1 with hp | hq
        · have hq : ¬ q a = true := fun hq ↦ hnot ⟨hp, hq⟩
          rw [List.filter_cons_of_pos hp, List.filter_cons_of_neg hq, List.take_succ_cons,
            List.map_cons] at heq
          exact hrest q (n + 1) (heq ▸ List.mem_cons_self)
        have hp : ¬ p a = true := fun hp ↦ hnot ⟨hp, hq⟩
        rw [List.filter_cons_of_neg hp, List.filter_cons_of_pos hq, List.take_succ_cons,
          List.map_cons] at heq
        exact hrest p (n + 1) (heq ▸ List.mem_cons_self)
      rw [List.filter_cons_of_pos hboth.1, List.filter_cons_of_pos hboth.2, List.take_succ_cons,
        List.take_succ_cons, List.map_cons, List.map_cons, List.cons.injEq] at heq
      rw [List.take_succ_cons, List.forall_mem_cons]
      exact ⟨hboth, ih hnodup.2 hsome.2 heq.2⟩

/-! ## The highest ranked -/

theorem rtake_of_length_le (h : l.length ≤ n) : l.rtake n = l := by
  rw [List.rtake, Nat.sub_eq_zero_of_le h, List.drop_zero]

theorem rtake_cons_of_le (h : n ≤ l.length) : (a :: l).rtake n = l.rtake n := by
  rw [List.rtake, List.rtake, List.length_cons, Nat.succ_sub h, List.drop_succ_cons]

theorem length_rtake (n : Nat) (l : List α) : (l.rtake n).length = min n l.length := by
  rw [List.rtake, List.length_drop]
  omega

theorem rtake_sublist (n : Nat) (l : List α) : (l.rtake n).Sublist l := List.drop_sublist _ l

theorem rtake_append_of_length (l : List α) {l' : List α} (h : l'.length = n) :
    (l ++ l').rtake n = l' := by
  rw [List.rtake, List.length_append, h, Nat.add_sub_cancel, List.drop_left]

theorem Ranked.filter_rtake (h : Ranked rank l) {p : α → Bool}
    (hp : ∀ a b, rank a ≤ rank b → p a = true → p b = true) (n : Nat) :
    (l.rtake n).filter p = (l.filter p).rtake n := by
  induction l with
  | nil => rw [List.rtake_nil, List.filter_nil, List.rtake_nil]
  | cons b l ih =>
    cases hb : p b with
    | true =>
      have hall : ∀ c ∈ b :: l, p c = true :=
        List.forall_mem_cons.mpr ⟨hb, fun c hc ↦ hp b c (h.head_le c hc) hb⟩
      rw [List.filter_eq_self.mpr hall, List.filter_eq_self]
      exact fun c hc ↦ hall c ((rtake_sublist n _).subset hc)
    | false =>
      have hneg : ¬ p b = true := by rw [hb]; exact Bool.false_ne_true
      rw [List.filter_cons_of_neg hneg]
      by_cases hn : n ≤ l.length
      · rw [rtake_cons_of_le hn, ih h.tail]
      have hlength := List.length_filter_le p l
      rw [rtake_of_length_le (by rw [List.length_cons]; omega), List.filter_cons_of_neg hneg,
        rtake_of_length_le (by omega)]

theorem Ranked.rtake_insert (h : Ranked rank l) (n : Nat) (a : α) :
    (insertRank rank a l).rtake n = (insertRank rank a (l.rtake n)).rtake n := by
  induction l with
  | nil => rw [List.rtake_nil]
  | cons b l ih =>
    by_cases hn : n ≤ l.length
    · have hlength : (l.rtake n).length = n := by rw [length_rtake]; omega
      rw [rtake_cons_of_le hn]
      by_cases hlt : rank a < rank b
      · have hinsert : insertRank rank a (l.rtake n) = a :: l.rtake n :=
          insertRank_of_lt fun c hc ↦
            h.lt_of_lt hlt c (List.mem_cons_of_mem b ((rtake_sublist n l).subset hc))
        rw [insertRank_cons_of_lt hlt, rtake_cons_of_le (Nat.le_succ_of_le hn),
          rtake_cons_of_le hn, hinsert, rtake_cons_of_le (Nat.le_of_eq hlength.symm),
          rtake_of_length_le (l := l.rtake n) (Nat.le_of_eq hlength)]
      · rw [insertRank_cons_of_le (le_of_not_gt hlt),
          rtake_cons_of_le (by rw [length_insertRank]; omega), ih h.tail]
    · rw [rtake_of_length_le (l := b :: l) (by rw [List.length_cons]; omega)]

theorem rtake_sortRank_concat (n : Nat) (l : List α) (a : α) : (sortRank rank (l ++ [a])).rtake n =
      (insertRank rank a ((sortRank rank l).rtake n)).rtake n := by
  rw [sortRank_concat, (ranked_sortRank l).rtake_insert]

theorem rtake_filter_eq_iff (p : α → Bool) (n : Nat) (l : List α) :
    (sortRank rank (l.filter p)).rtake n = (sortRank rank l).rtake n ↔
      ∀ a ∈ (sortRank rank l).rtake n, p a = true := by
  rw [← filter_sortRank]
  generalize sortRank rank l = sorted
  constructor
  · intro h a ha
    rw [← h] at ha
    exact List.of_mem_filter ((rtake_sublist n _).subset ha)
  intro h
  by_cases hn : sorted.length ≤ n
  · rw [rtake_of_length_le hn] at h ⊢
    rw [List.filter_eq_self.mpr h, rtake_of_length_le hn]
  have hsplit : sorted = sorted.rdrop n ++ sorted.rtake n :=
    (List.take_append_drop _ sorted).symm
  have hfilter : sorted.filter p = (sorted.rdrop n).filter p ++ sorted.rtake n := by
    conv_lhs => rw [hsplit]
    rw [List.filter_append, List.filter_eq_self.mpr h]
  rw [hfilter, rtake_append_of_length]
  rw [length_rtake]
  omega

/-! ## The place of an element -/

theorem mem_rtake_append_cons {m : List α} (h : (l ++ a :: m).Nodup) :
    a ∈ (l ++ a :: m).rtake n ↔ m.length < n := by
  constructor
  · intro hmem
    by_contra hle
    have hsub : (l ++ a :: m).rtake n = m.rtake n := by
      have hdrop : l.drop (l.length + (m.length + 1) - n) = [] := List.drop_eq_nil_of_le (by omega)
      obtain ⟨k, hk⟩ : ∃ k, l.length + (m.length + 1) - n - l.length = k + 1 :=
        ⟨m.length - n, by omega⟩
      rw [List.rtake, List.rtake, List.length_append, List.length_cons, List.drop_append, hdrop,
        List.nil_append, hk, List.drop_succ_cons]
      congr 1
      omega
    rw [hsub] at hmem
    have hnotin := (List.nodup_cons.mp (List.nodup_append.mp h).2.1).1
    exact hnotin ((rtake_sublist n m).subset hmem)
  · intro hlt
    have hsplit : l ++ a :: m = (l ++ a :: m).rdrop n ++ (l ++ a :: m).rtake n :=
      (List.take_append_drop _ _).symm
    have hdrop : (l ++ a :: m).rdrop n = l.take (l.length + (m.length + 1) - n) := by
      rw [List.rdrop, List.length_append, List.length_cons,
        List.take_append_of_le_length (by omega)]
    have hmem : a ∈ (l ++ a :: m).rdrop n ++ (l ++ a :: m).rtake n :=
      hsplit ▸ List.mem_append_right _ (.head _)
    refine (List.mem_append.mp hmem).resolve_left fun hleft ↦ ?_
    rw [hdrop] at hleft
    exact (List.nodup_append.mp h).2.2 a (List.mem_of_mem_take hleft) a (.head _) rfl

section Place

variable [DecidableEq α] (rank)

/-- The elements that a stable sort puts behind an element. -/
def rankedAbove (l : List α) (a : α) : List α :=
  (l.dropWhile (· ≠ a)).tail.filter (rank · = rank a) ++ l.filter (rank a < rank ·)

variable {rank}

/-- **An element is among the highest ranked** when fewer are sorted behind it. -/
theorem mem_rtake_sortRank_iff (hnodup : l.Nodup) (ha : a ∈ l) :
    a ∈ (sortRank rank l).rtake n ↔ (rankedAbove rank l a).length < n := by
  have hranked : Ranked rank (sortRank rank l) := ranked_sortRank l
  have hsorted := hranked.cut (rank a)
  have hequal : sortRank rank (l.filter (rank · = rank a)) = l.filter (rank · = rank a) := by
    refine Ranked.sort_eq (List.pairwise_iff_forall_sublist.mpr fun {b c} hsub ↦ le_of_eq ?_)
    have hall : ∀ b ∈ l.filter (rank · = rank a), rank b = rank a := fun b hb ↦
      of_decide_eq_true (List.mem_filter.mp hb).2
    exact (hall b (hsub.subset (.head _))).trans (hall c (hsub.subset (.tail _ (.head _)))).symm
  rw [filter_sortRank, filter_sortRank, filter_sortRank, hequal] at hsorted
  obtain ⟨before, behind, hl, hnotin⟩ := List.eq_append_cons_of_mem ha
  have hbehind : (l.dropWhile (· ≠ a)).tail = behind := by
    have hskip : ∀ b ∈ before, decide (b ≠ a) = true := fun b hb ↦
      decide_eq_true fun heq ↦ hnotin (heq ▸ hb)
    rw [hl, List.dropWhile_append_of_pos hskip, List.dropWhile_cons_of_neg (by simp)]
    rfl
  have hfilter : l.filter (rank · = rank a) =
      before.filter (rank · = rank a) ++ a :: behind.filter (rank · = rank a) := by
    rw [hl, List.filter_append, List.filter_cons, if_pos (decide_eq_true rfl)]
  rw [hfilter, List.append_assoc, List.cons_append, ← List.append_assoc] at hsorted
  have hperm : (sortRank rank l).Perm l := sortRank_perm l
  have hsortedNodup := hperm.nodup_iff.mpr hnodup
  rw [rankedAbove, hbehind, hsorted, mem_rtake_append_cons (hsorted ▸ hsortedNodup),
    List.length_append, List.length_append, length_sortRank]

end Place

end OpenAlice.Data
