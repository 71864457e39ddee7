import Mathlib.Data.List.Basic
import Mathlib.Data.List.TakeWhile

/-!
# A vector that copies its elements

`std::vector` of a class whose copies may differ from the original: `copy` is the copy constructor, and
`operator=` assigns what it makes.

* `pushBack` puts a copy at the end.  A vector that is full moves to new storage, and copies every element.
* `eraseAt` assigns every later element to the place before it.
* `eraseWhere` is the loop that erases the elements with `dead`.

What every copy keeps is read off the vector as from a list: `map_pushBack`, `map_eraseWhere`.
-/

namespace Sphinx

structure CopyVector (α : Type) where
  toList : List α
  capacity : Nat
  length_le : toList.length ≤ capacity

namespace CopyVector

variable {α β : Type} (copy : α → α) (recommend : Nat → Nat)

def empty : CopyVector α := ⟨[], 0, Nat.le_refl 0⟩

/-- The elements change in place. -/
def map (f : α → α) (v : CopyVector α) : CopyVector α :=
  ⟨v.toList.map f, v.capacity, by rw [List.length_map]; exact v.length_le⟩

/-- The first element with `p` changes in place. -/
def modifyFirst (p : α → Bool) (f : α → α) : List α → List α
  | [] => []
  | a :: l => if p a then f a :: l else a :: modifyFirst p f l

theorem length_modifyFirst (p : α → Bool) (f : α → α) : ∀ l : List α,
    (modifyFirst p f l).length = l.length := by
  intro l
  induction l with
  | nil => rfl
  | cons a l ih =>
    rw [modifyFirst]
    split_ifs
    · rfl
    · rw [List.length_cons, ih, List.length_cons]

def modify (p : α → Bool) (f : α → α) (v : CopyVector α) : CopyVector α :=
  ⟨modifyFirst p f v.toList, v.capacity, by rw [length_modifyFirst]; exact v.length_le⟩

def clear (v : CopyVector α) : CopyVector α := ⟨[], v.capacity, Nat.zero_le _⟩

/-- `recommend` is the growth policy of the library. -/
def pushBack (v : CopyVector α) (a : α) : CopyVector α :=
  if h : v.toList.length < v.capacity then
    ⟨v.toList ++ [copy a], v.capacity, by rw [List.length_append]; exact h⟩
  else
    ⟨v.toList.map copy ++ [copy a], max (v.toList.length + 1) (recommend v.toList.length), by
      rw [List.length_append, List.length_map]; exact Nat.le_max_left _ _⟩

def eraseAt (v : CopyVector α) (i : Nat) : CopyVector α :=
  ⟨v.toList.take i ++ (v.toList.drop (i + 1)).map copy, v.capacity, by
    have := v.length_le
    simp only [List.length_append, List.length_take, List.length_map, List.length_drop]
    omega⟩

/-- The elements from the iterator on; `moved` is what the erasures so far have made of them. -/
def eraseFrom (dead : α → Bool) : (α → α) → List α → List α
  | _, [] => []
  | moved, a :: l =>
    if dead (moved a) then eraseFrom dead (copy ∘ moved) l else moved a :: eraseFrom dead moved l

theorem length_eraseFrom_le (dead : α → Bool) : ∀ (l : List α) (moved : α → α),
    (eraseFrom copy dead moved l).length ≤ l.length := by
  intro l
  induction l with
  | nil => exact fun _ => Nat.le_refl 0
  | cons a l ih =>
    intro moved
    rw [eraseFrom]
    split_ifs
    · exact Nat.le_trans (ih _) (Nat.le_succ _)
    · exact Nat.succ_le_succ (ih moved)

def eraseWhere (dead : α → Bool) (v : CopyVector α) : CopyVector α :=
  ⟨eraseFrom copy dead id v.toList, v.capacity,
    Nat.le_trans (length_eraseFrom_le copy dead v.toList id) v.length_le⟩

variable {copy} {recommend}

/-! ### The elements afterwards -/

@[simp] theorem toList_empty : (empty : CopyVector α).toList = [] := rfl

@[simp] theorem toList_map (f : α → α) (v : CopyVector α) : (v.map f).toList = v.toList.map f := rfl

@[simp] theorem toList_modify (p : α → Bool) (f : α → α) (v : CopyVector α) :
    (v.modify p f).toList = modifyFirst p f v.toList := rfl

@[simp] theorem toList_clear (v : CopyVector α) : v.clear.toList = [] := rfl

theorem toList_pushBack (v : CopyVector α) (a : α) : (v.pushBack copy recommend a).toList =
    (if v.toList.length < v.capacity then v.toList else v.toList.map copy) ++ [copy a] := by
  unfold pushBack
  split_ifs <;> rfl

theorem toList_eraseAt (v : CopyVector α) (i : Nat) :
    (v.eraseAt copy i).toList = v.toList.take i ++ (v.toList.drop (i + 1)).map copy := rfl

section Erase

variable {dead : α → Bool} (hdead : ∀ a, dead (copy a) = dead a) (hidem : ∀ a, copy (copy a) = copy a)
include hdead hidem

theorem eraseFrom_copy : ∀ l : List α,
    eraseFrom copy dead copy l = (l.filter fun a => !dead a).map copy := by
  have hcomp : copy ∘ copy = copy := funext hidem
  intro l
  induction l with
  | nil => rfl
  | cons a l ih =>
    rw [eraseFrom, hdead, hcomp, ih]
    cases h : dead a with
    | true => rw [List.filter_cons_of_neg (by simp [h]), if_pos rfl]
    | false =>
      rw [List.filter_cons_of_pos (by simp [h]), if_neg Bool.false_ne_true, List.map_cons]

/-- The elements before the first one erased stay where they are; the rest is copied. -/
theorem toList_eraseWhere (v : CopyVector α) : (v.eraseWhere copy dead).toList =
    (v.toList.takeWhile fun a => !dead a) ++
      ((v.toList.dropWhile fun a => !dead a).filter fun a => !dead a).map copy := by
  change eraseFrom copy dead id v.toList = _
  induction v.toList with
  | nil => rfl
  | cons a l ih =>
    rw [eraseFrom, id, Function.comp_id]
    cases h : dead a with
    | true =>
      rw [if_pos rfl, eraseFrom_copy hdead hidem, List.takeWhile_cons_of_neg (by simp [h]),
        List.dropWhile_cons_of_neg (by simp [h]), List.filter_cons_of_neg (by simp [h]), List.nil_append]
    | false =>
      rw [if_neg Bool.false_ne_true, ih, List.takeWhile_cons_of_pos (by simp [h]),
        List.dropWhile_cons_of_pos (by simp [h]), List.cons_append]

end Erase

/-! ### When the other elements stay as they are -/

theorem map_eq_self_iff {f : α → α} {l : List α} : l.map f = l ↔ ∀ a ∈ l, f a = a := by
  conv_lhs => rw [← List.map_id l, List.map_map]
  exact List.map_inj_left

variable {v : CopyVector α}

theorem toList_pushBack_eq_iff {a : α} :
    (v.pushBack copy recommend a).toList = v.toList ++ [copy a] ↔
      v.toList.length < v.capacity ∨ ∀ b ∈ v.toList, copy b = b := by
  rw [toList_pushBack, List.append_left_inj]
  split_ifs with h
  · exact ⟨fun _ => .inl h, fun _ => rfl⟩
  · rw [map_eq_self_iff]
    exact ⟨.inr, fun hb => hb.resolve_left h⟩

theorem toList_eraseAt_zero_eq_iff {a : α} {l : List α} (hv : v.toList = a :: l) :
    (v.eraseAt copy 0).toList = l ↔ ∀ b ∈ l, copy b = b := by
  rw [← map_eq_self_iff, toList_eraseAt, hv]
  rfl

theorem toList_eraseWhere_eq_iff {dead : α → Bool} (hdead : ∀ a, dead (copy a) = dead a)
    (hidem : ∀ a, copy (copy a) = copy a) :
    (v.eraseWhere copy dead).toList = (v.toList.filter fun a => !dead a) ↔
      ∀ a ∈ (v.toList.dropWhile fun a => !dead a).filter fun a => !dead a, copy a = a := by
  have hfilter : (v.toList.filter fun a => !dead a) = (v.toList.takeWhile fun a => !dead a) ++
      (v.toList.dropWhile fun a => !dead a).filter fun a => !dead a := by
    conv_lhs => rw [← List.takeWhile_append_dropWhile (p := fun a => !dead a) (l := v.toList),
      List.filter_append]
    rw [List.filter_eq_self.mpr fun a ha => List.mem_takeWhile_imp (p := fun a => !dead a) ha]
  rw [← map_eq_self_iff, hfilter, toList_eraseWhere hdead hidem, List.append_right_inj]

/-! ### The element that changes in place -/

theorem map_modifyFirst {p : α → Bool} {g : α → α} {f : α → β} (hf : ∀ a, f (g a) = f a) :
    ∀ l : List α, (modifyFirst p g l).map f = l.map f := by
  intro l
  induction l with
  | nil => rfl
  | cons a l ih =>
    rw [modifyFirst]
    split_ifs
    · rw [List.map_cons, List.map_cons, hf]
    · rw [List.map_cons, List.map_cons, ih]

theorem mem_modifyFirst [DecidableEq β] {g : α → β} {k : β} {f : α → α} {b : α} :
    ∀ {l : List α}, (l.map g).Nodup → b ∈ modifyFirst (fun a => g a = k) f l →
      (b ∈ l ∧ g b ≠ k) ∨ ∃ a, (l.find? fun a => g a = k) = some a ∧ b = f a := by
  intro l
  induction l with
  | nil => exact fun _ h => .inl ⟨h, absurd h List.not_mem_nil⟩
  | cons a l ih =>
    intro hnodup h
    rw [List.map_cons, List.nodup_cons] at hnodup
    by_cases ha : g a = k
    · have hpos : (fun a => decide (g a = k)) a = true := decide_eq_true ha
      rw [modifyFirst, if_pos hpos] at h
      rw [List.find?_cons_of_pos (p := fun a => decide (g a = k)) hpos]
      rcases List.mem_cons.mp h with rfl | h
      · exact .inr ⟨a, rfl, rfl⟩
      · exact .inl ⟨List.mem_cons_of_mem _ h, fun hb =>
          hnodup.1 (List.mem_map.mpr ⟨b, h, hb.trans ha.symm⟩)⟩
    · have hneg : ¬(fun a => decide (g a = k)) a = true := by simpa using ha
      rw [modifyFirst, if_neg hneg] at h
      rw [List.find?_cons_of_neg (p := fun a => decide (g a = k)) hneg]
      rcases List.mem_cons.mp h with rfl | h
      · exact .inl ⟨List.mem_cons_self, ha⟩
      · exact (ih hnodup.2 h).imp_left fun h => ⟨List.mem_cons_of_mem _ h.1, h.2⟩

/-! ### What every copy keeps -/

variable {f : α → β} (hf : ∀ a, f (copy a) = f a)
include hf

theorem map_map_copy (l : List α) : (l.map copy).map f = l.map f := by
  rw [List.map_map]
  exact List.map_congr_left fun a _ => hf a

theorem map_pushBack (v : CopyVector α) (a : α) :
    (v.pushBack copy recommend a).toList.map f = v.toList.map f ++ [f a] := by
  rw [toList_pushBack]
  split_ifs
  · rw [List.map_append, List.map_singleton, hf]
  · rw [List.map_append, map_map_copy hf, List.map_singleton, hf]

theorem map_eraseAt (v : CopyVector α) (i : Nat) :
    (v.eraseAt copy i).toList.map f = (v.toList.map f).eraseIdx i := by
  rw [toList_eraseAt, List.map_append, map_map_copy hf, List.eraseIdx_eq_take_drop_succ, List.map_take, List.map_drop]

theorem map_eraseWhere {dead : α → Bool} (hdead : ∀ a, dead (copy a) = dead a) (v : CopyVector α) :
    (v.eraseWhere copy dead).toList.map f = (v.toList.filter fun a => !dead a).map f := by
  suffices h : ∀ (l : List α) (moved : α → α), (∀ a, dead (moved a) = dead a) →
      (∀ a, f (moved a) = f a) →
      (eraseFrom copy dead moved l).map f = (l.filter fun a => !dead a).map f from
    h v.toList id (fun _ => rfl) fun _ => rfl
  intro l
  induction l with
  | nil => exact fun _ _ _ => rfl
  | cons a l ih =>
    intro moved hmoved hfm
    rw [eraseFrom, hmoved]
    cases h : dead a with
    | true =>
      rw [if_pos rfl, List.filter_cons_of_neg (by simp [h])]
      exact ih _ (fun b => (hdead _).trans (hmoved b)) fun b => (hf _).trans (hfm b)
    | false =>
      rw [if_neg Bool.false_ne_true, List.filter_cons_of_pos (by simp [h]), List.map_cons, List.map_cons,
        hfm, ih moved hmoved hfm]

end CopyVector

end Sphinx
