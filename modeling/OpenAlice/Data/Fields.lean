/-!
# Decoders that take fields from the front

A decoder takes what it reads from the front of a list of fields, or fails.  `Reads decode fields x`
says that it takes exactly these fields, whatever follows them, and returns `x`; so what decoders in
sequence read is what each of them reads, one behind the other.

Nothing here knows what the fields are.
-/

universe u v w

namespace OpenAlice.Data

variable {φ : Type u} {ε : Type v} {α β : Type u}

def Reads (decode : StateT (List φ) (Except ε) α) (fields : List φ) (value : α) : Prop :=
  ∀ rest, decode (fields ++ rest) = .ok (value, rest)

variable {decode : StateT (List φ) (Except ε) α} {fields others : List φ} {value : α}

theorem Reads.pure : Reads (pure value : StateT (List φ) (Except ε) α) [] value :=
  fun _ ↦ rfl

theorem Reads.bind {next : α → StateT (List φ) (Except ε) β} {result : β}
    (h : Reads decode fields value) (hnext : Reads (next value) others result) :
    Reads (decode >>= next) (fields ++ others) result := by
  intro rest
  have hdecode := h (others ++ rest)
  rw [← List.append_assoc] at hdecode
  calc (decode >>= next) (fields ++ others ++ rest)
      = (decode (fields ++ others ++ rest)) >>= fun read ↦ next read.1 read.2 := rfl
    _ = next value (others ++ rest) := by rw [hdecode]; rfl
    _ = .ok (result, rest) := hnext rest

theorem Reads.map {make : α → β} (h : Reads decode fields value) :
    Reads (do return make (← decode)) fields (make value) := by
  have hread : Reads (do return make (← decode)) (fields ++ []) (make value) := h.bind .pure
  rwa [List.append_nil] at hread

end OpenAlice.Data
