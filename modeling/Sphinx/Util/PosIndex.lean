import Mathlib.Data.List.GetD
import Mathlib.Data.List.Nodup
import Mathlib.Data.List.Perm.Basic
import Mathlib.Order.Lattice
import Mathlib.Order.Nat

/-!
# A vector with the positions of its elements

`Inverse pos v` says that `pos` has the position of every element of `v`, and of nothing else.  So an element can be
swapped with the last one and taken away, without a search.

* `Inverse.push`, `Inverse.swap`, `Inverse.pop`: what keeps it;
* `Inverse.mem_iff`, `Inverse.nodup`: what follows from it.

A position is an integer, as other code may have a negative one for an element that is not in the vector.

Round `i` of a shuffle exchanges position `i` of a list with a position `choice i` that is not before it.
`drawn i` is the element that round `i` finds at `choice i`; a default element stands for those outside of
the list.

* `shuffled_perm`: the list is only permuted;
* `getD_shuffled`: afterwards the drawn elements stand at the front, in the order of the rounds;
* `FirstMin`: a scan that replaces what it keeps only by something smaller ends with the first of the least
  (`FirstMin.step`).
-/

namespace Sphinx.PosIndex

open Function (update update_of_ne update_self)

variable {K : Type} {pos : K → Option Int} {v : List K} {k : K}

def Inverse (pos : K → Option Int) (v : List K) : Prop :=
  ∀ k i, pos k = some i ↔ 0 ≤ i ∧ v[i.toNat]? = some k

theorem inverse_nil : Inverse (fun _ : K => none) [] := by
  intro k i
  simp

theorem Inverse.pos_getElem (h : Inverse pos v) {n : Nat} (hn : n < v.length) : pos v[n] = some (n : Int) :=
  (h _ _).mpr ⟨Int.natCast_nonneg n, by rw [Int.toNat_natCast, List.getElem?_eq_getElem hn]⟩

theorem Inverse.mem_iff (h : Inverse pos v) : k ∈ v ↔ ∃ i, pos k = some i := by
  constructor
  · intro hk
    obtain ⟨n, hn, rfl⟩ := List.mem_iff_getElem.mp hk
    exact ⟨n, h.pos_getElem hn⟩
  · rintro ⟨i, hi⟩
    exact List.mem_of_getElem? ((h k i).mp hi).2

/-- Where an element is. -/
theorem Inverse.getElem_of_pos (h : Inverse pos v) {i : Int} (hi : pos k = some i) :
    ∃ hlt : i.toNat < v.length, v[i.toNat] = k := by
  obtain ⟨hlt, heq⟩ := List.getElem?_eq_some_iff.mp ((h k i).mp hi).2
  exact ⟨hlt, heq⟩

theorem Inverse.nodup (h : Inverse pos v) : v.Nodup := by
  rw [List.nodup_iff_injective_get]
  rintro ⟨n, hn⟩ ⟨m, hm⟩ heq
  have hpos := h.pos_getElem hn
  rw [show v[n] = v[m] from heq, h.pos_getElem hm, Option.some.injEq] at hpos
  exact Fin.ext (by exact_mod_cast hpos.symm)

variable [DecidableEq K]

/-- A new element at the end. -/
theorem Inverse.push (h : Inverse pos v) (hk : k ∉ v) :
    Inverse (update pos k (some (v.length : Int))) (v ++ [k]) := by
  intro k' i
  by_cases hkk : k' = k
  · subst hkk
    rw [update_self, Option.some.injEq]
    constructor
    · rintro rfl
      exact ⟨Int.natCast_nonneg _, by simp⟩
    · rintro ⟨hi, hget⟩
      rcases Nat.lt_trichotomy i.toNat v.length with hlt | heq | hgt
      · rw [List.getElem?_append_left hlt] at hget
        exact absurd (List.mem_of_getElem? hget) hk
      · omega
      · rw [List.getElem?_eq_none (by simp; omega)] at hget
        cases hget
  · rw [update_of_ne hkk, h k' i]
    refine and_congr_right fun hi => ?_
    rcases Nat.lt_or_ge i.toNat v.length with hlt | hge
    · rw [List.getElem?_append_left hlt]
    · rw [List.getElem?_eq_none hge, List.getElem?_append_right hge]
      rcases Nat.eq_or_lt_of_le hge with heq | hgt
      · simp [← heq, Ne.symm hkk]
      · rw [List.getElem?_eq_none (by simp; omega)]

/-- Two elements swap their places. -/
theorem Inverse.swap (h : Inverse pos v) {n m : Nat} (hn : n < v.length) (hm : m < v.length) (hne : n ≠ m) :
    Inverse (update (update pos v[n] (some (m : Int))) v[m] (some (n : Int)))
      ((v.set n v[m]).set m v[n]) := by
  have hdistinct : v[n] ≠ v[m] := by
    intro heq
    have hpos := h.pos_getElem hn
    rw [heq, h.pos_getElem hm, Option.some.injEq] at hpos
    omega
  intro k i
  have hget (j : Nat) : ((v.set n v[m]).set m v[n])[j]? =
      if j = m then some v[n] else if j = n then some v[m] else v[j]? := by
    rw [List.getElem?_set, List.getElem?_set]
    by_cases hjm : m = j
    · subst hjm
      simp [hm]
    · by_cases hjn : n = j
      · subst hjn
        simp [hjm, Ne.symm hjm, hn]
      · simp [hjm, hjn, Ne.symm hjm, Ne.symm hjn]
  rw [hget]
  by_cases hkm : k = v[m]
  · subst hkm
    rw [update_self, Option.some.injEq]
    constructor
    · rintro rfl
      exact ⟨Int.natCast_nonneg n, by rw [Int.toNat_natCast, if_neg hne, if_pos rfl]⟩
    · rintro ⟨hi, heq⟩
      split_ifs at heq with h1 h2
      · exact absurd (Option.some.inj heq) hdistinct
      · omega
      · have hpos := (h v[m] i).mpr ⟨hi, heq⟩
        rw [h.pos_getElem hm, Option.some.injEq] at hpos
        omega
  · rw [update_of_ne hkm]
    by_cases hkn : k = v[n]
    · subst hkn
      rw [update_self, Option.some.injEq]
      constructor
      · rintro rfl
        exact ⟨Int.natCast_nonneg m, by rw [Int.toNat_natCast, if_pos rfl]⟩
      · rintro ⟨hi, heq⟩
        split_ifs at heq with h1 h2
        · omega
        · exact absurd (Option.some.inj heq).symm hdistinct
        · have hpos := (h v[n] i).mpr ⟨hi, heq⟩
          rw [h.pos_getElem hn, Option.some.injEq] at hpos
          omega
    · rw [update_of_ne hkn, h k i]
      refine and_congr_right fun hi => ?_
      split_ifs with h1 h2
      · rw [h1, List.getElem?_eq_getElem hm, Option.some.injEq, Option.some.injEq]
        exact ⟨fun heq => absurd heq.symm hkm, fun heq => absurd heq.symm hkn⟩
      · rw [h2, List.getElem?_eq_getElem hn, Option.some.injEq, Option.some.injEq]
        exact ⟨fun heq => absurd heq.symm hkn, fun heq => absurd heq.symm hkm⟩
      · rfl

/-- The last element goes. -/
theorem Inverse.pop (h : Inverse pos v) (hk : pos k = some ((v.length - 1 : Nat) : Int)) :
    Inverse (update pos k none) v.dropLast := by
  obtain ⟨hlt, hlast⟩ := h.getElem_of_pos hk
  rw [Int.toNat_natCast] at hlt
  intro k' i
  rw [List.getElem?_dropLast]
  by_cases hkk : k' = k
  · subst hkk
    rw [update_self]
    refine ⟨fun heq => (by cases heq), ?_⟩
    rintro ⟨hi, hget⟩
    split_ifs at hget with hlt'
    have hpos := (h k' i).mpr ⟨hi, hget⟩
    rw [hk, Option.some.injEq] at hpos
    omega
  · rw [update_of_ne hkk, h k' i]
    refine and_congr_right fun hi => ?_
    split_ifs with hlt'
    · rfl
    · refine ⟨fun hget => ?_, fun heq => (by cases heq)⟩
      obtain ⟨hlt'', heq⟩ := List.getElem?_eq_some_iff.mp hget
      have hi' : i.toNat = v.length - 1 := by omega
      refine absurd ?_ hkk
      rw [← heq, ← hlast]
      simp only [hi', Int.toNat_natCast]

end Sphinx.PosIndex

/-! ### Partial shuffles -/

namespace Sphinx.PartialShuffle

variable {α β : Type} (d : α)

/-- Positions `i` and `n` are exchanged. -/
def swapAt (l : List α) (i n : Nat) : List α := (l.set n (l.getD i d)).set i (l.getD n d)

/-- The list after so many rounds. -/
def shuffled (choice : Nat → Nat) (l : List α) : Nat → List α
  | 0 => l
  | j + 1 => swapAt d (shuffled choice l j) j (choice j)

def drawn (choice : Nat → Nat) (l : List α) (i : Nat) : α := (shuffled d choice l i).getD (choice i) d

/-- Each choice is a position of the list, and not one before the round. -/
def Chooses (choice : Nat → Nat) (n : Nat) : Prop := ∀ i < n, i ≤ choice i ∧ choice i < n

variable {d} {choice : Nat → Nat} {l : List α}

theorem swapAt_perm {i n : Nat} (hi : i < l.length) (hn : n < l.length) : (swapAt d l i n).Perm l := by
  rw [swapAt, List.getD_eq_getElem l d hi, List.getD_eq_getElem l d hn]
  exact List.set_set_perm hn hi

/-- **The list is only permuted.** -/
theorem shuffled_perm (hchoice : Chooses choice l.length) : ∀ {j : Nat}, j ≤ l.length →
    (shuffled d choice l j).Perm l := by
  intro j
  induction j with
  | zero => exact fun _ => .refl l
  | succ j ih =>
    intro hle
    have hperm := ih (Nat.le_of_succ_le hle)
    have hlen := hperm.length_eq
    exact (swapAt_perm (by omega) (by have := (hchoice j hle).2; omega)).trans hperm

theorem length_shuffled (hchoice : Chooses choice l.length) {j : Nat} (hj : j ≤ l.length) :
    (shuffled d choice l j).length = l.length :=
  (shuffled_perm hchoice hj).length_eq

theorem getD_swapAt_self {i n : Nat} (hi : i < l.length) : (swapAt d l i n).getD i d = l.getD n d := by
  rw [swapAt, List.getD_eq_getElem?_getD, List.getElem?_set_self (by rw [List.length_set]; exact hi)]
  rfl

theorem getD_swapAt_of_ne {i n k : Nat} (hki : k ≠ i) (hkn : k ≠ n) : (swapAt d l i n).getD k d = l.getD k d := by
  rw [swapAt, List.getD_eq_getElem?_getD, List.getElem?_set_ne hki.symm, List.getElem?_set_ne hkn.symm,
    ← List.getD_eq_getElem?_getD]

/-- **Afterwards the drawn elements stand at the front**, since no later round touches them. -/
theorem getD_shuffled (hchoice : Chooses choice l.length) : ∀ {j i : Nat}, j ≤ l.length → i < j →
    (shuffled d choice l j).getD i d = drawn d choice l i := by
  intro j
  induction j with
  | zero => exact fun _ hi => absurd hi (Nat.not_lt_zero _)
  | succ j ih =>
    intro i hle hi
    have hj : j ≤ l.length := Nat.le_of_succ_le hle
    rw [shuffled]
    rcases Nat.lt_succ_iff_lt_or_eq.mp hi with hlt | rfl
    · have := (hchoice j hle).1
      rw [getD_swapAt_of_ne (by omega) (by omega), ih hj hlt]
    · rw [getD_swapAt_self (by rw [length_shuffled hchoice hj]; exact hle), drawn]

/-! ### The first of the least -/

variable [LinearOrder β] {f : Nat → β} {n a : Nat}

/-- `a` is the first of the positions below `n` with the least value. -/
structure FirstMin (f : Nat → β) (n a : Nat) : Prop where
  lt : a < n
  le : ∀ i < n, f a ≤ f i
  first : ∀ i < a, f a < f i

theorem FirstMin.one (f : Nat → β) : FirstMin f 1 0 where
  lt := Nat.one_pos
  le i hi := by rw [Nat.lt_one_iff.mp hi]
  first i hi := absurd hi (Nat.not_lt_zero i)

/-- **One more position.** -/
theorem FirstMin.step (h : FirstMin f n a) : FirstMin f (n + 1) (if f n < f a then n else a) := by
  split_ifs with hlt
  · refine ⟨Nat.lt_succ_self n, fun i hi => ?_, fun i hi => hlt.trans_le (h.le i hi)⟩
    rcases Nat.lt_succ_iff_lt_or_eq.mp hi with hi | rfl
    · exact hlt.le.trans (h.le i hi)
    · exact le_rfl
  · refine ⟨Nat.lt_succ_of_lt h.lt, fun i hi => ?_, h.first⟩
    rcases Nat.lt_succ_iff_lt_or_eq.mp hi with hi | rfl
    · exact h.le i hi
    · exact not_lt.mp hlt

theorem FirstMin.unique {b : Nat} (h : FirstMin f n a) (h' : FirstMin f n b) : a = b := by
  rcases lt_trichotomy a b with hlt | heq | hlt
  · exact absurd (h'.first a hlt) (not_lt.mpr (h.le b h'.lt))
  · exact heq
  · exact absurd (h.first b hlt) (not_lt.mpr (h'.le a h.lt))

end Sphinx.PartialShuffle
