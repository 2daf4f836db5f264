import GroupKey.Directory
import Std.Data.HashMap
import Std.Data.TreeMap

/-!
# A directory as two maps

The public values by id, in ascending order, and the ids by endpoint.  Both are updated together,
and nothing but the check before the update keeps them in step.
-/

namespace GroupKey

structure DirectoryMaps where
  byId : Std.TreeMap Nat PublicValue
  byEndpoint : Std.HashMap Endpoint Nat

namespace DirectoryMaps

def empty : DirectoryMaps := ⟨∅, ∅⟩

def publicOf? (m : DirectoryMaps) (id : Nat) : Option PublicValue := m.byId[id]?

def idOf? (m : DirectoryMaps) (endpoint : Endpoint) : Option Nat := m.byEndpoint[endpoint]?

def containsId (m : DirectoryMaps) (id : Nat) : Bool := m.byId.contains id

def containsEndpoint (m : DirectoryMaps) (endpoint : Endpoint) : Bool :=
  m.byEndpoint.contains endpoint

/-- Makes an entry in both maps, unless its endpoint or its id is already in use, and tells whether
it did. -/
def record (m : DirectoryMaps) (endpoint : Endpoint) (id : Nat) (value : PublicValue) :
    Bool × DirectoryMaps :=
  if m.containsEndpoint endpoint then (false, m)
  else if m.containsId id then (false, m)
  else (true, ⟨m.byId.insert id value, m.byEndpoint.insert endpoint id⟩)

def highestId? (m : DirectoryMaps) : Option Nat := m.byId.maxKey?

def size (m : DirectoryMaps) : Nat := m.byId.size

def isEmpty (m : DirectoryMaps) : Bool := m.byId.isEmpty

/-- The ids from `first` on and below `bound` that nobody is recorded for, in ascending order. -/
def missing (m : DirectoryMaps) (first bound : Nat) : List Nat :=
  (Directory.idsBelow first bound).filter fun id ↦ !m.containsId id

end DirectoryMaps

end GroupKey
