import Mathlib.Data.List.Basic

/-!
# Paths through links

A tree is what stands at each of its places, a place being the names that lead to it from the
root.  A path is a list of moves; `resolve` makes them one by one, as a file system does, and
makes the moves of a link in place of the link.  A path may leave the tree: upwards from its
root, or by a link that does not start in it.

Nothing here knows what the leaves hold.
-/

universe u

namespace OpenAlice.Data

variable {α : Type u}

inductive Move (α : Type u) where
  | stay
  | up
  | down (name : α)

inductive Standing (α : Type u) where
  | directory
  | leaf
  /-- The moves of its target, from the directory of the link; `none` when the target does not
  start in the tree. -/
  | link (target : Option (List (Move α)))

/-- Where a path leads. -/
inductive Resolved (α : Type u) where
  | found (place : List α)
  /-- Nothing stands there; `rest` was still to be walked. -/
  | missing (place : List α) (rest : List (Move α))
  | notDirectory
  | escaped
  | tooManyLinks

/-- The moves of a path from a directory, where `follow` walks on from a link. -/
def walk (standing : List α → Option (Standing α))
    (follow : List α → List (Move α) → Resolved α) :
    List α → List (Move α) → Resolved α
  | here, [] => .found here
  | here, .stay :: rest => walk standing follow here rest
  | here, .up :: rest => if here.isEmpty then .escaped else walk standing follow here.dropLast rest
  | here, .down name :: rest =>
    match standing (here ++ [name]) with
    | none => .missing (here ++ [name]) rest
    | some .directory => walk standing follow (here ++ [name]) rest
    | some .leaf => if rest.isEmpty then .found (here ++ [name]) else .notDirectory
    | some (.link none) => .escaped
    | some (.link (some target)) => follow here (target ++ rest)

/-- Where a path leads from a directory, with a number of links that may be followed. -/
def resolve (standing : List α → Option (Standing α)) :
    Nat → List α → List (Move α) → Resolved α
  | 0 => walk standing fun _ _ ↦ .tooManyLinks
  | links + 1 => walk standing (resolve standing links)

end OpenAlice.Data
