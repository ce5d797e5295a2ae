import Mathlib.Algebra.BigOperators.Group.Finset.Basic
import Mathlib.Algebra.BigOperators.Intervals

/-!
# Programs of awaited calls in time

A sequential asynchronous function is a tree: it awaits a call and goes on with the answer, or it
looks at the clock and at what else can be read without waiting.  An oracle says what each call
answers and how long it takes; nothing else takes time.  `calls` lists the calls that a program
makes, and `clock` says when the call of a given number is made.

`calls_bind` and `value_bind` take a run of two programs in sequence apart.
-/

namespace OpenAlice.Run

/-- Programs that await calls of `Q`, where a call `q` is answered by an `R q`, and look at the
clock and at an `S`. -/
inductive Await (Q : Type) (R : Q → Type) (S α : Type) where
  | ret (a : α)
  | ask (q : Q) (k : R q → Await Q R S α)
  | look (k : Int → S → Await Q R S α)

namespace Await

variable {Q : Type} {R : Q → Type} {S α β : Type}

def bind (p : Await Q R S α) (f : α → Await Q R S β) : Await Q R S β :=
  match p with
  | ret a => f a
  | ask q k => ask q fun r ↦ bind (k r) f
  | look k => look fun t s ↦ bind (k t s) f

def bindOk {ε : Type} (p : Await Q R S (Except ε α)) (f : α → Await Q R S (Except ε β)) :
    Await Q R S (Except ε β) :=
  p.bind fun
    | .ok a => f a
    | .error e => ret (.error e)

def forEach (l : List α) (f : α → Await Q R S Unit) : Await Q R S Unit :=
  match l with
  | [] => ret ()
  | a :: l => bind (f a) fun _ ↦ forEach l f

end Await

/-- What the calls answer, by their number, and how long they take. -/
structure Oracle (Q : Type) (R : Q → Type) (S : Type) where
  /-- When the first call is made. -/
  start : Int
  duration : Nat → Nat
  reply : Nat → (q : Q) → R q
  /-- What can be read without waiting before the call of this number. -/
  seen : Nat → S

namespace Oracle

variable {Q : Type} {R : Q → Type} {S α β : Type} (O : Oracle Q R S)

/-- When call number `n` is made: all calls before it have taken their time. -/
def clock (n : Nat) : Int := O.start + ((∑ i ∈ Finset.range n, O.duration i : Nat) : Int)

/-- The calls of a program whose first call has a given number. -/
def calls : Await Q R S α → Nat → List Q
  | .ret _, _ => []
  | .ask q k, n => q :: calls (k (O.reply n q)) (n + 1)
  | .look k, n => calls (k (O.clock n) (O.seen n)) n

def value : Await Q R S α → Nat → α
  | .ret a, _ => a
  | .ask q k, n => value (k (O.reply n q)) (n + 1)
  | .look k, n => value (k (O.clock n) (O.seen n)) n

def next (p : Await Q R S α) (n : Nat) : Nat := n + (O.calls p n).length

@[simp] theorem calls_ask (q : Q) (k : R q → Await Q R S α) (n : Nat) :
    O.calls (.ask q k) n = q :: O.calls (k (O.reply n q)) (n + 1) := rfl

@[simp] theorem calls_look (k : Int → S → Await Q R S α) (n : Nat) :
    O.calls (.look k) n = O.calls (k (O.clock n) (O.seen n)) n := rfl

@[simp] theorem next_ret (a : α) (n : Nat) : O.next (.ret a) n = n := rfl

@[simp] theorem next_ask (q : Q) (k : R q → Await Q R S α) (n : Nat) :
    O.next (.ask q k) n = O.next (k (O.reply n q)) (n + 1) := by
  rw [next, next, calls_ask, List.length_cons]
  omega

@[simp] theorem next_look (k : Int → S → Await Q R S α) (n : Nat) :
    O.next (.look k) n = O.next (k (O.clock n) (O.seen n)) n := rfl

theorem calls_bind (p : Await Q R S α) (f : α → Await Q R S β) (n : Nat) :
    O.calls (p.bind f) n = O.calls p n ++ O.calls (f (O.value p n)) (O.next p n) := by
  induction p generalizing n with
  | ret a => rfl
  | ask q k ih =>
    rw [Await.bind, calls_ask, calls_ask, ih, List.cons_append, next_ask]
    rfl
  | look k ih =>
    rw [Await.bind, calls_look, calls_look, ih, next_look]
    rfl

theorem next_bind (p : Await Q R S α) (f : α → Await Q R S β) (n : Nat) :
    O.next (p.bind f) n = O.next (f (O.value p n)) (O.next p n) := by
  rw [next, calls_bind, List.length_append, next, next, Nat.add_assoc]

theorem getElem?_calls_forEach {l : List α} {f : α → Await Q R S Unit} {n i : Nat} {q : Q} :
    (O.calls (Await.forEach l f) n)[i]? = some q ↔
      ∃ k a j, l[k]? = some a ∧ n + i = O.next (Await.forEach (l.take k) f) n + j ∧
        (O.calls (f a) (O.next (Await.forEach (l.take k) f) n))[j]? = some q := by
  induction l generalizing n i with
  | nil =>
    constructor
    · intro h
      cases h
    · rintro ⟨k, a, j, ha, -⟩
      cases ha
  | cons a l ih =>
    have hnext : ∀ k, O.next (Await.forEach ((a :: l).take (k + 1)) f) n =
        O.next (Await.forEach (l.take k) f) (O.next (f a) n) := by
      intro k
      rw [List.take_succ_cons, Await.forEach, next_bind]
    rw [Await.forEach, calls_bind, List.getElem?_append]
    split_ifs with hlt
    · constructor
      · intro h
        exact ⟨0, a, i, rfl, rfl, h⟩
      rintro ⟨k, b, j, hb, hij, hq⟩
      cases k with
      | zero =>
        cases hb
        have : i = j := by
          rw [List.take_zero, Await.forEach, next_ret] at hij
          omega
        rwa [this]
      | succ k =>
        rw [hnext, next] at hij
        have : n + (O.calls (f a) n).length = O.next (f a) n := rfl
        omega
    · have hshift : O.next (f a) n = n + (O.calls (f a) n).length := rfl
      rw [ih]
      constructor
      · rintro ⟨k, b, j, hb, hij, hq⟩
        refine ⟨k + 1, b, j, hb, ?_, ?_⟩
        · rw [hnext]
          omega
        · rwa [hnext]
      · rintro ⟨k, b, j, hb, hij, hq⟩
        cases k with
        | zero =>
          cases hb
          have hj := (List.getElem?_eq_some_iff.mp hq).1
          rw [List.take_zero, Await.forEach, next_ret] at hij hj
          omega
        | succ k =>
          rw [hnext] at hij hq
          exact ⟨k, b, j, hb, by omega, hq⟩

end Oracle

end OpenAlice.Run
