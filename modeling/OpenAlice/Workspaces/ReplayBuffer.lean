import Mathlib.Data.List.Basic

/-!
# The replay buffer

`ReplayBuffer` of `src/workspaces/replay-buffer.ts`: the last bytes of a session's output, in the
chunks in which they came, under the number of bytes that came before.

A buffer `Mirrors` what the session has emitted when it holds its last `maxBytes` bytes; `append`
keeps that, for chunks of any size, and then `since` is a drop of the whole output
(`Mirrors.since`).
-/

namespace OpenAlice.Workspaces

/-- `Buffer`. -/
abbrev Bytes := List UInt8

structure ReplayBuffer where
  maxBytes : Nat
  chunks : List Bytes := []
  totalBytes : Nat := 0
  head : Nat := 0

structure ReplaySlice where
  bytes : Bytes
  effectiveSeq : Nat
  tailSeq : Nat

namespace ReplayBuffer

/-! ## The operations -/

def new (maxBytes : Nat) : Except String ReplayBuffer :=
  if maxBytes ≤ 0 then .error "ReplayBuffer maxBytes must be > 0" else .ok { maxBytes := maxBytes }

def tailSeq (buffer : ReplayBuffer) : Nat := buffer.head + buffer.totalBytes

/-- The loop of `evict`.  A chunk that is dropped in part leaves `maxBytes` bytes, which ends it. -/
def evictFrom (maxBytes : Nat) : List Bytes → Nat → Nat → ReplayBuffer
  | [], totalBytes, head => { maxBytes, chunks := [], totalBytes, head }
  | oldest :: chunks, totalBytes, head =>
    if totalBytes ≤ maxBytes then { maxBytes, chunks := oldest :: chunks, totalBytes, head }
    else
      let overshoot := totalBytes - maxBytes
      if oldest.length ≤ overshoot then
        evictFrom maxBytes chunks (totalBytes - oldest.length) (head + oldest.length)
      else
        { maxBytes
          chunks := oldest.drop overshoot :: chunks
          totalBytes := totalBytes - overshoot
          head := head + overshoot }

def evict (buffer : ReplayBuffer) : ReplayBuffer :=
  evictFrom buffer.maxBytes buffer.chunks buffer.totalBytes buffer.head

def append (buffer : ReplayBuffer) (chunk : Bytes) : ReplayBuffer :=
  if chunk.length = 0 then buffer
  else
    { buffer with
      chunks := buffer.chunks ++ [chunk]
      totalBytes := buffer.totalBytes + chunk.length }.evict

/-- The loop of `since`: what is left of the chunks behind the bytes to skip. -/
def skip : Nat → List Bytes → List Bytes
  | _, [] => []
  | remainingSkip, chunk :: chunks =>
    if chunk.length ≤ remainingSkip then skip (remainingSkip - chunk.length) chunks
    else if 0 < remainingSkip then chunk.drop remainingSkip :: skip 0 chunks
    else chunk :: skip 0 chunks

def since (buffer : ReplayBuffer) (seq : Nat) : ReplaySlice :=
  let effectiveSeq := max seq buffer.head
  let tailSeq := buffer.tailSeq
  if tailSeq ≤ effectiveSeq then { bytes := [], effectiveSeq, tailSeq }
  else { bytes := (skip (effectiveSeq - buffer.head) buffer.chunks).flatten, effectiveSeq, tailSeq }

/-! ## What the buffer holds -/

/-- The buffer holds the last `maxBytes` bytes of the output. -/
structure Mirrors (stream : Bytes) (buffer : ReplayBuffer) : Prop where
  head : buffer.head = stream.length - buffer.maxBytes
  held : buffer.chunks.flatten = stream.drop buffer.head
  total : buffer.totalBytes = buffer.chunks.flatten.length

variable {stream chunk : Bytes} {buffer : ReplayBuffer} {maxBytes : Nat}

theorem Mirrors.tailSeq (h : Mirrors stream buffer) : buffer.tailSeq = stream.length := by
  rw [ReplayBuffer.tailSeq, h.total, h.held, List.length_drop, h.head]
  omega

theorem mirrors_new (h : new maxBytes = .ok buffer) : Mirrors [] buffer := by
  rw [new] at h
  split_ifs at h
  cases h
  exact ⟨(Nat.zero_sub _).symm, rfl, rfl⟩

theorem maxBytes_new (h : new maxBytes = .ok buffer) : buffer.maxBytes = maxBytes := by
  rw [new] at h
  split_ifs at h
  cases h
  rfl

/-- **Evicting** leaves the last `maxBytes` bytes, wherever the chunks end. -/
theorem evictFrom_spec (maxBytes head : Nat) (chunks : List Bytes) :
    (evictFrom maxBytes chunks chunks.flatten.length head).head =
        head + (chunks.flatten.length - maxBytes) ∧
      (evictFrom maxBytes chunks chunks.flatten.length head).chunks.flatten =
        chunks.flatten.drop (chunks.flatten.length - maxBytes) ∧
      (evictFrom maxBytes chunks chunks.flatten.length head).totalBytes =
        min chunks.flatten.length maxBytes := by
  induction chunks generalizing head with
  | nil => exact ⟨by simp [evictFrom], by simp [evictFrom], by simp [evictFrom]⟩
  | cons oldest chunks ih =>
    rw [List.flatten_cons, List.length_append]
    by_cases hfits : oldest.length + chunks.flatten.length ≤ maxBytes
    · rw [evictFrom, if_pos hfits]
      have hnone : oldest.length + chunks.flatten.length - maxBytes = 0 := by omega
      refine ⟨by rw [hnone]; rfl, by rw [hnone]; rfl, ?_⟩
      show oldest.length + chunks.flatten.length = _
      omega
    rw [evictFrom, if_neg hfits]
    by_cases hwhole : oldest.length ≤ oldest.length + chunks.flatten.length - maxBytes
    · -- the whole chunk goes, and the loop turns again
      rw [if_pos hwhole, Nat.add_sub_cancel_left]
      obtain ⟨hhead, hheld, htotal⟩ := ih (head + oldest.length)
      have hrest : oldest.length + chunks.flatten.length - maxBytes =
          oldest.length + (chunks.flatten.length - maxBytes) := by omega
      refine ⟨?_, ?_, ?_⟩
      · rw [hhead]
        omega
      · rw [hheld, hrest, List.drop_append]
        simp
      · rw [htotal]
        omega
    · -- the front of the chunk goes
      rw [if_neg hwhole]
      have hpart : oldest.length + chunks.flatten.length - maxBytes ≤ oldest.length := by omega
      refine ⟨rfl, ?_, ?_⟩
      · rw [List.flatten_cons, List.drop_append_of_le_length hpart]
      · show oldest.length + chunks.flatten.length - _ = _
        omega

theorem maxBytes_evictFrom (maxBytes : Nat) (chunks : List Bytes) (totalBytes head : Nat) :
    (evictFrom maxBytes chunks totalBytes head).maxBytes = maxBytes := by
  induction chunks generalizing totalBytes head with
  | nil => rfl
  | cons oldest chunks ih =>
    rw [evictFrom]
    by_cases hfits : totalBytes ≤ maxBytes
    · rw [if_pos hfits]
    rw [if_neg hfits]
    by_cases hwhole : oldest.length ≤ totalBytes - maxBytes
    · rw [if_pos hwhole]
      exact ih _ _
    · rw [if_neg hwhole]

@[simp] theorem maxBytes_append (buffer : ReplayBuffer) (chunk : Bytes) :
    (buffer.append chunk).maxBytes = buffer.maxBytes := by
  rw [append]
  split_ifs
  · rfl
  · exact maxBytes_evictFrom _ _ _ _

theorem Mirrors.append (h : Mirrors stream buffer) (chunk : Bytes) :
    Mirrors (stream ++ chunk) (buffer.append chunk) := by
  by_cases hempty : chunk.length = 0
  · rw [ReplayBuffer.append, if_pos hempty, List.eq_nil_of_length_eq_zero hempty, List.append_nil]
    exact h
  have hlength : (buffer.chunks ++ [chunk]).flatten.length = buffer.totalBytes + chunk.length := by
    rw [List.flatten_append, List.length_append, h.total, List.flatten_singleton]
  have htail := h.tailSeq
  rw [ReplayBuffer.tailSeq] at htail
  obtain ⟨hhead, hheld, htotal⟩ :=
    evictFrom_spec buffer.maxBytes buffer.head (buffer.chunks ++ [chunk])
  rw [hlength] at hhead hheld htotal
  have happend : buffer.append chunk =
      evictFrom buffer.maxBytes (buffer.chunks ++ [chunk]) (buffer.totalBytes + chunk.length)
        buffer.head := by
    rw [ReplayBuffer.append, if_neg hempty]
    rfl
  have hbefore := h.head
  refine ⟨?_, ?_, ?_⟩
  · rw [maxBytes_append, happend, hhead, List.length_append]
    omega
  · have hsplit : (buffer.chunks ++ [chunk]).flatten = (stream ++ chunk).drop buffer.head := by
      rw [List.flatten_append, List.flatten_singleton, h.held,
        List.drop_append_of_le_length (by omega)]
    rw [happend, hheld, hhead, hsplit, List.drop_drop]
  · rw [happend, htotal, hheld, List.length_drop, hlength]
    omega

theorem flatten_skip (n : Nat) (chunks : List Bytes) :
    (skip n chunks).flatten = chunks.flatten.drop n := by
  induction chunks generalizing n with
  | nil => rw [skip, List.flatten_nil, List.drop_nil]
  | cons chunk chunks ih =>
    rw [skip, List.flatten_cons]
    split_ifs with hwhole hpart
    · rw [ih, List.drop_append, List.drop_eq_nil_of_le hwhole, List.nil_append]
    · rw [List.flatten_cons, ih, List.drop_zero,
        List.drop_append_of_le_length (Nat.le_of_not_le hwhole)]
    · rw [List.flatten_cons, ih, List.drop_zero, Nat.eq_zero_of_not_pos hpart, List.drop_zero]

/-- **What a slice is**: the output from the position asked for, or from the oldest byte held. -/
theorem Mirrors.since (h : Mirrors stream buffer) (seq : Nat) : buffer.since seq =
      { bytes := stream.drop (max seq (stream.length - buffer.maxBytes))
        effectiveSeq := max seq (stream.length - buffer.maxBytes)
        tailSeq := stream.length } := by
  rw [ReplayBuffer.since, h.tailSeq, ← h.head]
  split_ifs with hpast
  · rw [List.drop_eq_nil_of_le hpast]
  have hsplit : buffer.head + (max seq buffer.head - buffer.head) = max seq buffer.head := by
    omega
  rw [flatten_skip, h.held, List.drop_drop, hsplit]

end ReplayBuffer

end OpenAlice.Workspaces
