import Mathlib.Order.Lattice

/-!
# The map of the highest values

`limitedmap`, a `std::map` beside the `std::multimap` of its values, whose entries point to the nodes of the
map.  A node is known by its address, so that an entry whose node is gone does not find another one of the
same key; what C++ leaves undefined ends in a `MapFault`.
-/

namespace Sphinx

/-- Why a call does not return. -/
inductive MapFault
  /-- `rmap.begin()` of an empty `rmap` is dereferenced. -/
  | emptyBegin
  /-- An iterator whose node is gone. -/
  | dangling
  /-- `assert(0)`. -/
  | assertion
deriving DecidableEq, Repr

structure MapNode (K V : Type) where
  addr : Nat
  key : K
  value : V
deriving DecidableEq, Repr

/-- `nodes` is the address of the node that is made next. -/
structure LimitedMap (K V : Type) where
  map : List (MapNode K V)
  rmap : List (V × Nat)
  nMaxSize : Nat
  nodes : Nat

namespace LimitedMap

variable {K V : Type} [DecidableEq K] [LinearOrder V]

/-- The constructor. -/
def new (nMaxSizeIn : Nat) : LimitedMap K V := ⟨[], [], nMaxSizeIn, 0⟩

def find (m : LimitedMap K V) (k : K) : Option (MapNode K V) := m.map.find? (·.key = k)

/-- `rmap.insert`: behind the entries that are not higher. -/
def insertEntry (e : V × Nat) : List (V × Nat) → List (V × Nat)
  | [] => [e]
  | b :: rmap => if e.1 < b.1 then e :: b :: rmap else b :: insertEntry e rmap

section

variable (m : LimitedMap K V)

/-- `map.erase(it)`. -/
def eraseNode (it : Nat) : Except MapFault (LimitedMap K V) :=
  if m.map.any (·.addr = it) then .ok { m with map := m.map.eraseP (·.addr = it) } else .error .dangling

/-- `map.erase(rmap.begin()->second); rmap.erase(rmap.begin());` -/
def evict : Except MapFault (LimitedMap K V) :=
  match m.rmap with
  | [] => .error .emptyBegin
  | (_, it) :: rmap => do
    let m ← m.eraseNode it
    return { m with rmap := rmap }

/-- The eviction in `insert`, when the new node is in `map` and its entry not yet in `rmap`. -/
def makeRoom : Except MapFault (LimitedMap K V) :=
  if m.nMaxSize ≠ 0 ∧ m.map.length = m.nMaxSize then m.evict else .ok m

def insert (x : K × V) : Except MapFault (LimitedMap K V) :=
  if (m.find x.1).isSome then .ok m
  else do
    let ret := m.nodes
    let m ← makeRoom { m with map := ⟨ret, x.1, x.2⟩ :: m.map, nodes := ret + 1 }
    return { m with rmap := insertEntry (x.2, ret) m.rmap }

/-- The loop over `rmap.equal_range(itTarget->second)`, up to `rmap.erase(it)`. -/
def unlink (itTarget : MapNode K V) : Except MapFault (LimitedMap K V) :=
  if (itTarget.value, itTarget.addr) ∈ m.rmap then
    .ok { m with rmap := m.rmap.erase (itTarget.value, itTarget.addr) }
  else .error .assertion

def erase (k : K) : Except MapFault (LimitedMap K V) :=
  match m.find k with
  | none => .ok m
  | some itTarget => do
    let m ← m.unlink itTarget
    m.eraseNode itTarget.addr

/-- `update(itIn, v)`, where `k` is `itIn->first`. -/
def update (k : K) (v : V) : Except MapFault (LimitedMap K V) :=
  match m.find k with
  | none => .ok m
  | some itTarget => do
    let m ← m.unlink itTarget
    return { m with
      map := m.map.map fun n => if n.addr = itTarget.addr then { n with value := v } else n
      rmap := insertEntry (v, itTarget.addr) m.rmap }

end

/-- The loop of `max_size(s)`.  Each round takes a node from the map, so as many rounds as there are nodes
suffice. -/
def shrink (s : Nat) : Nat → LimitedMap K V → Except MapFault (LimitedMap K V)
  | 0, m => .ok m
  | fuel + 1, m =>
    if s < m.map.length then do
      let m ← m.evict
      shrink s fuel m
    else .ok m

/-- `max_size(s)`. -/
def setMaxSize (m : LimitedMap K V) (s : Nat) : Except MapFault (LimitedMap K V) := do
  let m ← if s ≠ 0 then shrink s m.map.length m else .ok m
  return { m with nMaxSize := s }

end LimitedMap

/-- The calls that change a `limitedmap`. -/
inductive MapCall (K V : Type)
  | insert (x : K × V)
  | erase (k : K)
  | update (k : K) (v : V)
  | maxSize (s : Nat)
deriving DecidableEq, Repr

def LimitedMap.call {K V : Type} [DecidableEq K] [LinearOrder V] (m : LimitedMap K V) :
    MapCall K V → Except MapFault (LimitedMap K V)
  | .insert x => m.insert x
  | .erase k => m.erase k
  | .update k v => m.update k v
  | .maxSize s => m.setMaxSize s

end Sphinx
