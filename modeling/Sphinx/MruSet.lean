import Mathlib.Data.Finset.Basic

/-!
# The set of the most recent elements

`mruset`, a `std::set` beside the `std::deque` of its elements in the order in which they came.  `front` and
`pop_front` have no meaning on an empty queue, so an eviction there has no result (`evict`).
-/

namespace Sphinx

structure MruSet (T : Type) where
  set : Finset T
  queue : List T
  nMaxSize : Nat

namespace MruSet

variable {T : Type} [DecidableEq T]

/-- The constructor. -/
def new (nMaxSizeIn : Nat) : MruSet T := ⟨∅, [], nMaxSizeIn⟩

/-- `set.erase(queue.front()); queue.pop_front();` -/
def evict (mru : MruSet T) : Option (MruSet T) :=
  match mru.queue with
  | [] => none
  | x :: queue => some { mru with set := mru.set.erase x, queue := queue }

/-- The eviction in `insert`, when the new element is in the set and not yet in the queue. -/
def makeRoom (mru : MruSet T) : Option (MruSet T) :=
  if mru.nMaxSize ≠ 0 ∧ mru.queue.length = mru.nMaxSize then mru.evict else some mru

/-- `insert`, with the second component of the pair that it returns. -/
def insert (mru : MruSet T) (x : T) : Option (Bool × MruSet T) :=
  if x ∈ mru.set then some (false, mru)
  else do
    let mru ← makeRoom { mru with set := Insert.insert x mru.set }
    return (true, { mru with queue := mru.queue ++ [x] })

/-- The loop of `max_size`.  Each round takes an element from the queue, so as many rounds as there are elements
suffice. -/
def shrink (s : Nat) : Nat → MruSet T → Option (MruSet T)
  | 0, mru => if s < mru.queue.length then none else some mru
  | fuel + 1, mru =>
    if s < mru.queue.length then do
      let mru ← mru.evict
      shrink s fuel mru
    else some mru

/-- `max_size(s)`. -/
def setMaxSize (mru : MruSet T) (s : Nat) : Option (MruSet T) := do
  let mru ← if s ≠ 0 then shrink s mru.queue.length mru else some mru
  return { mru with nMaxSize := s }

def clear (mru : MruSet T) : MruSet T := { mru with set := ∅, queue := [] }

end MruSet

/-- The calls that change an `mruset`. -/
inductive MruCall (T : Type)
  | insert (x : T)
  | maxSize (s : Nat)
  | clear
deriving DecidableEq, Repr

def MruSet.call {T : Type} [DecidableEq T] (mru : MruSet T) : MruCall T → Option (MruSet T)
  | .insert x => Prod.snd <$> mru.insert x
  | .maxSize s => mru.setMaxSize s
  | .clear => some mru.clear

end Sphinx
