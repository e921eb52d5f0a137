import Enclave.Value

/-!
# Instance arenas

Where a definition token keeps the tables of its instances. An instance is given a `Handle`, the
place of its entry and the entry's generation; when the instance goes, its entry is vacated and
later used again with the next generation, so that a handle from before finds nothing there.
Generations are words of thirty-two bits and wrap around. Places are natural numbers; words would do
for them as long as no more than `2 ^ 32` instances are kept at one time.
-/

namespace Enclave

/-- A slot table, by its place among all tables ever made. -/
structure TableId where
  index : Nat
  deriving DecidableEq, Inhabited

/-- The place of an entry and the generation it was filled in. -/
structure Handle where
  index : Nat
  generation : UInt32
  deriving DecidableEq

/-- What an entry holds: an instance and its table. -/
structure Occupant where
  inst : ObjectId
  table : TableId
  deriving DecidableEq

/-- A place for an instance, filled or vacant. -/
structure Entry where
  generation : UInt32
  occupant : Option Occupant
  deriving DecidableEq, Inhabited

/-- The entries of a token, its vacant places with the one vacated last in front, and the number of
filled ones. -/
structure InstanceArena where
  entries : Array Entry
  free : List Nat
  live : Nat
  deriving Inhabited

namespace InstanceArena

def empty : InstanceArena := ⟨#[], [], 0⟩

/-- The handle of the next instance: the place vacated last, or a new one if there is none. -/
def nextHandle (a : InstanceArena) : Handle :=
  match a.free with
  | index :: _ => ⟨index, (a.entries.getD index default).generation⟩
  -- a place that was never filled begins with generation zero
  | [] => ⟨a.entries.size, 0⟩

/-- Fills the place of `nextHandle`. -/
def insert (a : InstanceArena) (inst : ObjectId) (table : TableId) : InstanceArena :=
  match a.free with
  | index :: free =>
    ⟨a.entries.modify index fun entry => { entry with occupant := some ⟨inst, table⟩ }, free,
      a.live + 1⟩
  | [] => ⟨a.entries.push ⟨0, some ⟨inst, table⟩⟩, [], a.live + 1⟩

/-- What a handle finds, unless its entry has been vacated since. -/
def occupant? (a : InstanceArena) (h : Handle) : Option Occupant :=
  match a.entries[h.index]? with
  -- generations are compared before it is asked who is there
  | some entry => if entry.generation = h.generation then entry.occupant else none
  | none => none

/-- The table that a handle finds for the instance it was given to. -/
def resolve? (a : InstanceArena) (h : Handle) (inst : ObjectId) : Option TableId :=
  match a.occupant? h with
  | some occupant => if occupant.inst = inst then some occupant.table else none
  | none => none

/-- Vacates the entry that a handle finds. -/
def remove (a : InstanceArena) (h : Handle) : InstanceArena :=
  if (a.occupant? h).isSome then
    -- the generation goes up as the place is vacated, and wraps around
    ⟨a.entries.modify h.index fun entry => ⟨entry.generation + 1, none⟩, h.index :: a.free,
      a.live - 1⟩
  else a

/-- The tables of all instances. -/
def tables (a : InstanceArena) : List TableId :=
  a.entries.toList.filterMap fun entry => entry.occupant.map (·.table)

end InstanceArena

end Enclave
