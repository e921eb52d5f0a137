/-!
# Sets of code points

A set of code points is given by its *boundaries*, the points at which membership changes, in
ascending order and starting outside the set. A point belongs to the set when the number of
boundaries at or below it is odd.

* `CodePointSet.rank` counts those boundaries by halving strides through the sequence;
* `CodePointSet.contains` tests membership.
-/

namespace Enclave.Text

/-- A set of code points, given by the ascending points at which membership changes. -/
structure CodePointSet where
  /-- The first point inside, the first point outside again, and so on. -/
  boundaries : Array Nat

namespace CodePointSet

/-- The number of boundaries at or below `point`, given that at least `base` of them are and that
fewer than `base + 2 ^ strides` are. -/
def rank (boundaries : Array Nat) (point : Nat) : (strides : Nat) → (base : Nat) → Nat
  | 0, base => base
  | strides + 1, base =>
    match boundaries[base + (1 <<< strides) - 1]? with
    | some boundary =>
      if boundary ≤ point then rank boundaries point strides (base + (1 <<< strides))
      else rank boundaries point strides base
    | none => rank boundaries point strides base

/-- Membership: an odd number of boundaries lies at or below the point. -/
def contains (set : CodePointSet) (c : Char) : Bool :=
  rank set.boundaries c.toNat (set.boundaries.size.log2 + 1) 0 % 2 == 1

end CodePointSet

end Enclave.Text
