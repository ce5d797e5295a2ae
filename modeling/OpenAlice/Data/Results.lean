import OpenAlice.Data.Checked

/-!
# Computations that have a result

When a computation that may fail ends without failing: for a sequence, for a choice, for a loop.
The rule of loops (`foldlM_rule`) takes an invariant of the loop's state under which the body has a
result.

Nothing here knows what is computed.
-/

universe u v

namespace OpenAlice.Data

variable {ε : Type u} {α β : Type v}

def Ok (x : Except ε α) : Prop := ∃ a, x = .ok a

section Steps

variable {x : Except ε α} {f : α → Except ε β}

theorem ok_ok (a : α) : Ok (.ok a : Except ε α) := ⟨a, rfl⟩

theorem not_ok_error (e : ε) : ¬ Ok (.error e : Except ε α) := by
  rintro ⟨a, h⟩
  cases h

theorem ok_bind_iff : Ok (x >>= f) ↔ ∃ a, x = .ok a ∧ Ok (f a) := by
  constructor
  · rintro ⟨b, h⟩
    obtain ⟨a, ha, hb⟩ := bind_ok h
    exact ⟨a, ha, b, hb⟩
  · rintro ⟨a, rfl, h⟩
    exact h

theorem bind_eq_ok {a : α} {b : β} (h : x = .ok a) (hrest : f a = .ok b) : (x >>= f) = .ok b := by
  rw [h]
  exact hrest

theorem ok_bind_of_eq {a : α} (h : x = .ok a) : Ok (x >>= f) ↔ Ok (f a) := by
  rw [h]
  rfl

theorem ok_bind_of_forall (h : ∀ a, Ok (f a)) : Ok (x >>= f) ↔ Ok x := by
  rw [ok_bind_iff]
  exact ⟨fun ⟨a, ha, _⟩ ↦ ⟨a, ha⟩, fun ⟨a, ha⟩ ↦ ⟨a, ha, h a⟩⟩

theorem ok_if_error {c : Prop} [Decidable c] {e : ε} :
    Ok (if c then .error e else x) ↔ ¬ c ∧ Ok x := by
  by_cases h : c
  · rw [if_pos h]
    exact ⟨fun hok ↦ absurd hok (not_ok_error e), fun hok ↦ absurd h hok.1⟩
  · rw [if_neg h]
    exact ⟨fun hok ↦ ⟨h, hok⟩, And.right⟩

/-- Two computations that agree as far as `seen` shows, and rests that agree after such
results. -/
theorem map_bind_congr {γ δ : Type v} {y : Except ε α} {g : α → Except ε β} {out : β → δ}
    (seen : α → γ) (h : x.map seen = y.map seen)
    (hrest : ∀ a b, x = .ok a → y = .ok b → seen a = seen b → (f a).map out = (g b).map out) :
    (x >>= f).map out = (y >>= g).map out := by
  match x, y with
  | .ok a, .ok b => exact hrest a b rfl rfl (Except.ok.inj h)
  | .error e, .error e' =>
    rw [Except.error.inj h]
    rfl
  | .ok _, .error _ | .error _, .ok _ => cases h

/-- What is computed from results that agree as far as `seen` shows. -/
theorem map_map_congr {γ δ : Type v} {y : Except ε α} {seen : α → γ} {k : α → β} {out : β → δ}
    (h : x.map seen = y.map seen) (hk : ∀ a b, seen a = seen b → out (k a) = out (k b)) :
    (x.map k).map out = (y.map k).map out := by
  match x, y with
  | .ok a, .ok b => exact congrArg Except.ok (hk a b (Except.ok.inj h))
  | .error e, .error e' =>
    rw [Except.error.inj h]
  | .ok _, .error _ | .error _, .ok _ => cases h

theorem ok_if {c : Prop} [Decidable c] {y : Except ε α} :
    Ok (if c then x else y) ↔ (c → Ok x) ∧ (¬ c → Ok y) := by
  by_cases h : c
  · rw [if_pos h]
    exact ⟨fun hok ↦ ⟨fun _ ↦ hok, fun hn ↦ absurd h hn⟩, fun hok ↦ hok.1 h⟩
  · rw [if_neg h]
    exact ⟨fun hok ↦ ⟨fun hn ↦ absurd hn h, fun _ ↦ hok⟩, fun hok ↦ hok.2 h⟩

end Steps

section Loops

variable {ι : Type v} {body : β → ι → Except ε β} {l : List ι} {b : β}

/-- **The rule of loops**: an invariant under which the body has a result. -/
theorem foldlM_rule (P : β → Prop) (h₀ : P b)
    (hbody : ∀ b, P b → ∀ i ∈ l, ∃ b', body b i = .ok b' ∧ P b') :
    ∃ b', l.foldlM body b = .ok b' ∧ P b' := by
  induction l generalizing b with
  | nil => exact ⟨b, rfl, h₀⟩
  | cons i l ih =>
    obtain ⟨b₁, hb₁, hP₁⟩ := hbody b h₀ i List.mem_cons_self
    obtain ⟨b', hb', hP'⟩ := ih hP₁ fun b hb j hj ↦ hbody b hb j (List.mem_cons_of_mem i hj)
    refine ⟨b', ?_, hP'⟩
    rw [List.foldlM_cons, hb₁]
    exact hb'

theorem ok_foldlM_bind {γ : Type v} {f : β → Except ε γ} (P : β → Prop) (h₀ : P b)
    (hbody : ∀ b, P b → ∀ i ∈ l, ∃ b', body b i = .ok b' ∧ P b')
    (hrest : ∀ b, P b → Ok (f b)) : Ok (l.foldlM body b >>= f) := by
  obtain ⟨b', hb', hP⟩ := foldlM_rule P h₀ hbody
  exact ok_bind_iff.mpr ⟨b', hb', hrest b' hP⟩

theorem ok_foldlM (hbody : ∀ b, ∀ i ∈ l, Ok (body b i)) : Ok (l.foldlM body b) := by
  obtain ⟨b', hb', -⟩ := foldlM_rule (l := l) (b := b) (fun _ ↦ True) trivial
    fun b _ i hi ↦ (hbody b i hi).imp fun _ h ↦ ⟨h, trivial⟩
  exact ⟨b', hb'⟩

theorem foldlM_eq_foldl {g : β → ι → β} (h : ∀ b, ∀ i ∈ l, body b i = .ok (g b i)) :
    l.foldlM body b = .ok (l.foldl g b) := by
  induction l generalizing b with
  | nil => rfl
  | cons i l ih =>
    rw [List.foldlM_cons, h b i List.mem_cons_self, List.foldl_cons]
    exact ih fun b j hj ↦ h b j (List.mem_cons_of_mem i hj)

variable {g : ι → Except ε α}

theorem ok_mapM_iff : Ok (l.mapM g) ↔ ∀ i ∈ l, Ok (g i) := by
  induction l with
  | nil => exact ⟨fun _ i hi ↦ absurd hi List.not_mem_nil, fun _ ↦ ⟨[], rfl⟩⟩
  | cons i l ih =>
    rw [List.mapM_cons, ok_bind_iff, List.forall_mem_cons, ← ih]
    constructor
    · rintro ⟨a, ha, hrest⟩
      obtain ⟨as, has, -⟩ := ok_bind_iff.mp hrest
      exact ⟨⟨a, ha⟩, ⟨as, has⟩⟩
    · rintro ⟨⟨a, ha⟩, ⟨as, has⟩⟩
      exact ⟨a, ha, ok_bind_iff.mpr ⟨as, has, ok_ok _⟩⟩

theorem mapM_eq_map {f : ι → α} (h : ∀ i ∈ l, g i = .ok (f i)) : l.mapM g = .ok (l.map f) := by
  induction l with
  | nil => rfl
  | cons i l ih =>
    rw [List.mapM_cons, h i List.mem_cons_self, ih fun j hj ↦ h j (List.mem_cons_of_mem i hj)]
    rfl

theorem length_of_mapM {as : List α} (h : l.mapM g = .ok as) : as.length = l.length := by
  induction l generalizing as with
  | nil =>
    cases h
    rfl
  | cons i l ih =>
    rw [List.mapM_cons] at h
    obtain ⟨a, -, hrest⟩ := bind_ok h
    obtain ⟨as', has', hcons⟩ := bind_ok hrest
    cases hcons
    rw [List.length_cons, List.length_cons, ih has']

theorem foldl_pair {γ : Type v} {add : γ → γ → γ} (f g : ι → γ) (a c : γ) :
    l.foldl (fun s i ↦ (add s.1 (f i), add s.2 (g i))) (a, c) =
      ((l.map f).foldl add a, (l.map g).foldl add c) := by
  induction l generalizing a c with
  | nil => rfl
  | cons i l ih => exact ih (add a (f i)) (add c (g i))

end Loops

end OpenAlice.Data
