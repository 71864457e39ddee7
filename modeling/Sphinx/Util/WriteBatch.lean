import Mathlib.Data.List.Induction

/-!
# A key/value store with a pending batch

A store is a partial map `K → Option V`.  A *batch* is the list of puts and deletes issued so far
and not yet applied, oldest first.  `applyBatch m ops` is the store after the batch has been
applied in order; `scanBatch ops k` looks a key up in the batch alone, the last operation on the
key deciding (`none` when the batch does not touch it).

* `scanBatch_getD`: looking in the batch first and in the store second is looking in the store
  the batch leads to.
* `batchView_put`, `batchView_delete`: one more operation updates the view at its key only.
-/

namespace Sphinx.WriteBatch

open Function (update update_of_ne update_self)

variable {K V : Type} [DecidableEq K]

/-- One pending operation. -/
inductive BatchOp (K V : Type) where
  | put (k : K) (v : V)
  | delete (k : K)

/-- The effect of one operation on a store. -/
def applyOp (m : K → Option V) : BatchOp K V → K → Option V
  | .put k v => update m k (some v)
  | .delete k => update m k none

/-- A whole batch, applied in order. -/
def applyBatch (m : K → Option V) (ops : List (BatchOp K V)) : K → Option V :=
  ops.foldl applyOp m

/-- The verdict of one operation on key `k`, given the verdict of the operations before it:
`some (some v)` for a put of `v`, `some none` for a delete. -/
def scanOp (k : K) (found : Option (Option V)) : BatchOp K V → Option (Option V)
  | .put k' v => if k' = k then some (some v) else found
  | .delete k' => if k' = k then some none else found

/-- What the batch alone says about `k`; the last operation on the key wins. -/
def scanBatch (ops : List (BatchOp K V)) (k : K) : Option (Option V) :=
  ops.foldl (scanOp k) none

/-- What a reader sees: the batch first, if there is one, then the store. -/
def batchView (m : K → Option V) (batch : Option (List (BatchOp K V))) : K → Option V :=
  applyBatch m (batch.getD [])

theorem applyOp_scanOp (m : K → Option V) (k : K) (op : BatchOp K V) (found : Option (Option V)) :
    (scanOp k found op).getD (m k) = applyOp (update m k (found.getD (m k))) op k := by
  cases op with
  | put k' v =>
    by_cases h : k' = k
    · subst h; simp [scanOp, applyOp]
    · simp [scanOp, applyOp, h, update_of_ne (Ne.symm h)]
  | delete k' =>
    by_cases h : k' = k
    · subst h; simp [scanOp, applyOp]
    · simp [scanOp, applyOp, h, update_of_ne (Ne.symm h)]

theorem applyBatch_append (m : K → Option V) (ops : List (BatchOp K V)) (op : BatchOp K V) :
    applyBatch m (ops ++ [op]) = applyOp (applyBatch m ops) op := by
  simp [applyBatch]

theorem applyOp_congr {m m' : K → Option V} {k : K} (op : BatchOp K V) (h : m k = m' k) :
    applyOp m op k = applyOp m' op k := by
  cases op with
  | put k' v =>
    by_cases hk : k = k'
    · subst hk; simp [applyOp]
    · simp [applyOp, update_of_ne hk, h]
  | delete k' =>
    by_cases hk : k = k'
    · subst hk; simp [applyOp]
    · simp [applyOp, update_of_ne hk, h]

section

variable (m : K → Option V) (ops : List (BatchOp K V)) (k : K)

/-- **Reading through the batch**: the batch's verdict, and the store's where the batch has none,
is the value in the store the batch leads to. -/
theorem scanBatch_getD :
    (scanBatch ops k).getD (m k) = applyBatch m ops k := by
  induction ops using List.reverseRecOn with
  | nil => rfl
  | append_singleton ops op ih =>
    rw [applyBatch_append, scanBatch, List.foldl_append, List.foldl_cons, List.foldl_nil,
      applyOp_scanOp]
    exact applyOp_congr op (by rw [update_self]; exact ih)

theorem batchView_put (v : V) :
    batchView m (some (ops ++ [.put k v])) = update (batchView m (some ops)) k (some v) :=
  applyBatch_append m ops (.put k v)

theorem batchView_delete :
    batchView m (some (ops ++ [.delete k])) = update (batchView m (some ops)) k none :=
  applyBatch_append m ops (.delete k)

end

end Sphinx.WriteBatch
