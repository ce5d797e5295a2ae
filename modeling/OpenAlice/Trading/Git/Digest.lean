import Mathlib.Data.Rat.Encodable
import Mathlib.Logic.Equiv.List
import Mathlib.Tactic.DeriveEncodable
import OpenAlice.Trading.Git.Step

/-!
# A digest without collisions

Some results hold only as long as distinct contents have distinct hashes.  Such
a digest exists: hashed contents can be numbered, and `unaryPlatform` writes
that number down.
-/

namespace OpenAlice.Trading.Git

open OpenAlice.Run

instance encodableChar : Encodable Char :=
  .ofLeftInverse Char.toNat Char.ofNat Char.ofNat_toNat

instance encodableString : Encodable String :=
  .ofLeftInverse String.toList String.ofList fun _ ↦ String.ofList_toList

deriving instance Encodable for Contract
deriving instance Encodable for Order
deriving instance Encodable for TpSlParams
deriving instance Encodable for Operation
deriving instance Encodable for OperationStatus
deriving instance Encodable for OrderStatusUpdate
deriving instance Encodable for HashContent

def unaryDigest (content : HashContent) : CommitHash :=
  String.ofList (List.replicate (Encodable.encode content + 1) '1')

theorem unaryDigest_injective : Function.Injective unaryDigest := by
  intro a b h
  have hl := congrArg List.length (String.ofList_injective h)
  simpa using hl

theorem unaryDigest_ne_empty (content : HashContent) : unaryDigest content ≠ "" := by
  intro h
  have hl := congrArg (List.length ∘ String.toList) h
  simp [unaryDigest] at hl

def unaryPlatform : Platform where
  generateCommitHash := unaryDigest
  toFixed d := toString d

end OpenAlice.Trading.Git
