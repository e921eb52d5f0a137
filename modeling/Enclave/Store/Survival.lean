/-!
# Survival in a graph

Nodes of a finite graph support one another along its edges. What has no support left falls, and
what it supported loses that support. `Graph.remaining` gives what support each node is left with
when nothing more falls; a node *survives* if it is left with any.

* A root never falls.
* A *joint* node needs all of its supporters: it falls with the first of them.
* Any other node falls with the last of its supporters. So nodes that support each other in a circle
  never fall.
-/

namespace Enclave

/-- A graph on the numbers below `size`. -/
structure Graph where
  size : Nat
  successors : Nat → List Nat
  isJoint : Nat → Bool
  isRoot : Nat → Bool

namespace Graph

/-- How many edges lead to each node. -/
def edgesInto (g : Graph) : Array Nat :=
  (List.range g.size).foldl
    (fun counts n => (g.successors n).foldl (fun counts m => counts.modify m (· + 1)) counts)
    (Array.replicate g.size 0)

/-- The support that a node with so many edges leading to it starts out with. The support of a root
exceeds what can ever be withdrawn, that of a joint node goes with the first withdrawal. -/
def initialSupport (g : Graph) (n edges : Nat) : Nat :=
  -- every edge can be withdrawn once, so one unit more is never used up
  if g.isRoot n then edges + 1 else if g.isJoint n then min 1 edges else edges

/-- The support of each node as long as nothing has fallen. -/
def support (g : Graph) : Array Nat := g.edgesInto.mapIdx fun n edges => g.initialSupport n edges

/-- Takes one unit of support from a node; if it was the last one, the node is to fall. -/
def withdraw (state : Array Nat × List Nat) (n : Nat) : Array Nat × List Nat :=
  let (support, falling) := state
  match support[n]? with
  | some 1 => (support.setIfInBounds n 0, n :: falling)
  | some (k + 2) => (support.setIfInBounds n (k + 1), falling)
  | _ => (support, falling)

/-- Lets nodes fall one after another, each taking its support from its successors. A node falls at
most once, so no more than `size` of them do. -/
def settle (g : Graph) : (bound : Nat) → Array Nat × List Nat → Array Nat
  | 0, (support, _) => support
  | _ + 1, (support, []) => support
  -- a node that loses its last support is put in front of those still to fall
  | bound + 1, (support, n :: falling) =>
    settle g bound ((g.successors n).foldl withdraw (support, falling))

/-- What support is left when nothing more falls. -/
def remaining (g : Graph) : Array Nat :=
  let support := g.support
  -- what nothing supports falls first, and takes the others with it
  let falling := (List.range g.size).filter fun n => support.getD n 0 = 0
  g.settle (g.size + 1) (support, falling)

/-- Whether a node is left with any support. -/
def survives (remaining : Array Nat) (n : Nat) : Bool := 0 < remaining.getD n 0

end Graph

end Enclave
