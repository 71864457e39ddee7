import Mathlib.Data.List.TakeWhile
import Mathlib.Data.Nat.Digits.Lemmas

/-!
# Conversion between bases

A number is kept in a buffer of a fixed size, as digits of the base `b` with the lowest first, while the digits of
another base `m` come in, the highest first: for each the buffer is multiplied by `m`, and the digit is added.

* `Holds.mulAdd`: the carry that is left is zero as long as the number fits, and the buffer then holds the new number;
* `mulAddUsed_eq`: the loop may end where the digits that are in use do;
* `pow_le_pow_size`: a buffer whose size is a rational bound of the logarithm is large enough;
* `Holds.strip`: without the zeros in front, the buffer is the list of the digits.
-/

namespace Sphinx.Radix

variable {b m : Nat}

/-- The buffer times `m`, plus `carry`; what does not fit is returned. -/
def mulAdd (b m : Nat) : Nat → List Nat → List Nat × Nat
  | carry, [] => ([], carry)
  | carry, d :: ds =>
    let next := mulAdd b m ((carry + m * d) / b) ds
    ((carry + m * d) % b :: next.1, next.2)

/-- The same, up to where there is no carry and no digit in use; the number of the digits in use afterwards is
returned too. -/
def mulAddUsed (b m : Nat) : Nat → Nat → List Nat → List Nat × Nat × Nat
  | carry, _, [] => ([], carry, 0)
  | carry, used, d :: ds =>
    if carry ≠ 0 ∨ 0 < used then
      let next := mulAddUsed b m ((carry + m * d) / b) (used - 1) ds
      ((carry + m * d) % b :: next.1, next.2.1, next.2.2 + 1)
    else (d :: ds, carry, 0)

theorem ofDigits_mulAdd (carry : Nat) (ds : List Nat) :
    Nat.ofDigits b (mulAdd b m carry ds).1 + b ^ ds.length * (mulAdd b m carry ds).2 =
      carry + m * Nat.ofDigits b ds := by
  induction ds generalizing carry with
  | nil => simp [mulAdd]
  | cons d ds ih =>
    have hdiv := Nat.mod_add_div (carry + m * d) b
    have hrest := ih ((carry + m * d) / b)
    rw [mulAdd, Nat.ofDigits_cons, Nat.ofDigits_cons, List.length_cons]
    calc (carry + m * d) % b + b * Nat.ofDigits b (mulAdd b m ((carry + m * d) / b) ds).1 +
          b ^ (ds.length + 1) * (mulAdd b m ((carry + m * d) / b) ds).2
        = (carry + m * d) % b + b * (Nat.ofDigits b (mulAdd b m ((carry + m * d) / b) ds).1 +
            b ^ ds.length * (mulAdd b m ((carry + m * d) / b) ds).2) := by ring
      _ = (carry + m * d) % b + b * ((carry + m * d) / b) + m * (b * Nat.ofDigits b ds) := by rw [hrest]; ring
      _ = carry + m * (d + b * Nat.ofDigits b ds) := by rw [hdiv]; ring

theorem length_mulAdd (carry : Nat) (ds : List Nat) : (mulAdd b m carry ds).1.length = ds.length := by
  induction ds generalizing carry with
  | nil => rfl
  | cons d ds ih => rw [mulAdd, List.length_cons, ih, List.length_cons]

theorem mulAdd_lt (hb : 0 < b) (carry : Nat) (ds : List Nat) : ∀ d ∈ (mulAdd b m carry ds).1, d < b := by
  induction ds generalizing carry with
  | nil => exact fun _ hd => absurd hd List.not_mem_nil
  | cons d ds ih => exact List.forall_mem_cons.mpr ⟨Nat.mod_lt _ hb, ih _⟩

/-- The buffer holds the number `n`. -/
structure Holds (b size : Nat) (ds : List Nat) (n : Nat) : Prop where
  length : ds.length = size
  lt : ∀ d ∈ ds, d < b
  value : Nat.ofDigits b ds = n

namespace Holds

variable {size n : Nat} {ds : List Nat}

theorem replicate_zero (hb : 0 < b) (size : Nat) : Holds b size (List.replicate size 0) 0 where
  length := List.length_replicate
  lt d hd := by rw [List.eq_of_mem_replicate hd]; exact hb
  value := Nat.ofDigits_replicate_zero

theorem lt_pow (h : Holds b size ds n) (hb : 1 < b) : n < b ^ size := by
  rw [← h.value, ← h.length]
  exact Nat.ofDigits_lt_base_pow_length hb h.lt

/-- **One digit comes in.** -/
theorem mulAdd (h : Holds b size ds n) (hb : 0 < b) {carry : Nat} (hcarry : (Radix.mulAdd b m carry ds).2 = 0) :
    Holds b size (Radix.mulAdd b m carry ds).1 (carry + m * n) where
  length := by rw [length_mulAdd, h.length]
  lt := mulAdd_lt hb carry ds
  value := by
    have hsum := ofDigits_mulAdd (b := b) (m := m) carry ds
    rw [hcarry, Nat.mul_zero, Nat.add_zero, h.value] at hsum
    exact hsum

/-- There is nothing left as long as the number fits. -/
theorem carry_eq_zero (h : Holds b size ds n) {carry : Nat} (hfits : carry + m * n < b ^ size) :
    (Radix.mulAdd b m carry ds).2 = 0 := by
  have hsum := ofDigits_mulAdd (b := b) (m := m) carry ds
  rw [h.value, h.length] at hsum
  by_contra hne
  have hle : b ^ size * 1 ≤ b ^ size * (Radix.mulAdd b m carry ds).2 :=
    Nat.mul_le_mul_left _ (Nat.pos_of_ne_zero hne)
  omega

end Holds

/-! ### The digits that are in use -/

theorem mulAdd_zero {ds : List Nat} (hzero : ∀ d ∈ ds, d = 0) : mulAdd b m 0 ds = (ds, 0) := by
  induction ds with
  | nil => rfl
  | cons d ds ih =>
    obtain ⟨rfl, hrest⟩ := List.forall_mem_cons.mp hzero
    rw [mulAdd, Nat.mul_zero, Nat.zero_div, ih hrest, Nat.zero_mod]

/-- **The loop may end with the digits in use**, and only zeros are behind the ones in use afterwards. -/
theorem mulAddUsed_eq (carry used : Nat) {ds : List Nat} (hzero : ∀ d ∈ ds.drop used, d = 0) :
    ((mulAddUsed b m carry used ds).1, (mulAddUsed b m carry used ds).2.1) = mulAdd b m carry ds ∧
      ∀ d ∈ (mulAddUsed b m carry used ds).1.drop (mulAddUsed b m carry used ds).2.2, d = 0 := by
  induction ds generalizing carry used with
  | nil => exact ⟨rfl, fun _ hd => absurd hd List.not_mem_nil⟩
  | cons d ds ih =>
    rw [mulAddUsed]
    by_cases hgo : carry ≠ 0 ∨ 0 < used
    · have hrest : ∀ d ∈ ds.drop (used - 1), d = 0 := by
        intro x hx
        apply hzero
        cases used with
        | zero => exact List.mem_cons_of_mem d hx
        | succ used => exact hx
      obtain ⟨heq, hdrop⟩ := ih ((carry + m * d) / b) (used - 1) hrest
      rw [if_pos hgo, mulAdd, ← heq]
      exact ⟨rfl, hdrop⟩
    · rw [not_or, not_not, not_lt, Nat.le_zero] at hgo
      obtain ⟨rfl, rfl⟩ := hgo
      rw [List.drop_zero] at hzero
      rw [if_neg (by omega), mulAdd_zero hzero]
      exact ⟨rfl, hzero⟩

/-! ### The size of the buffer -/

/-- `p / q` bounds the logarithm of `m` to the base `b`. -/
theorem pow_le_pow_size {p q : Nat} (hb : 0 < b) (hq : 0 < q) (hlog : m ^ q ≤ b ^ p) (k : Nat) :
    m ^ k ≤ b ^ (k * p / q + 1) := by
  have hceil : p * k ≤ (k * p / q + 1) * q := by
    have hdiv := Nat.lt_div_mul_add (a := k * p) hq
    rw [Nat.mul_comm p k, Nat.add_mul, Nat.one_mul]
    omega
  refine (Nat.pow_le_pow_iff_left hq.ne').mp ?_
  calc (m ^ k) ^ q = (m ^ q) ^ k := by rw [← pow_mul, ← pow_mul, Nat.mul_comm]
    _ ≤ (b ^ p) ^ k := Nat.pow_le_pow_left hlog k
    _ = b ^ (p * k) := (pow_mul b p k).symm
    _ ≤ b ^ ((k * p / q + 1) * q) := Nat.pow_le_pow_right hb hceil
    _ = (b ^ (k * p / q + 1)) ^ q := pow_mul ..

/-! ### The digits, the highest first -/

/-- The number that has come in as the digits `xs`, after the number `n`. -/
def feed (m n : Nat) (xs : List Nat) : Nat := xs.foldl (fun n x => x + m * n) n

theorem feed_eq (n : Nat) (xs : List Nat) : feed m n xs = Nat.ofDigits m xs.reverse + m ^ xs.length * n := by
  induction xs generalizing n with
  | nil => simp [feed]
  | cons x xs ih =>
    rw [feed, List.foldl_cons]
    change feed m (x + m * n) xs = _
    rw [ih, List.reverse_cons, Nat.ofDigits_append, Nat.ofDigits_singleton, List.length_reverse, List.length_cons,
      pow_succ]
    ring

/-- Digits that do not begin with a zero are the digits of their number. -/
theorem digits_feed (hm : 1 < m) {xs : List Nat} (hlt : ∀ x ∈ xs, x < m) (hhead : xs.head? ≠ some 0) :
    (Nat.digits m (feed m 0 xs)).reverse = xs := by
  rw [feed_eq, Nat.mul_zero, Nat.add_zero, Nat.digits_ofDigits m hm, List.reverse_reverse]
  · exact fun x hx => hlt x (List.mem_reverse.mp hx)
  · intro hne hlast
    rw [List.getLast_reverse] at hlast
    exact hhead (by rw [← hlast, List.head?_eq_some_head])

theorem head?_digits (m n : Nat) : (Nat.digits m n).reverse.head? ≠ some 0 := by
  rw [List.head?_reverse]
  intro hlast
  have hne : n ≠ 0 := by
    rintro rfl
    rw [Nat.digits_zero] at hlast
    cases hlast
  have hlast' := Nat.getLast_digit_ne_zero m hne
  rw [List.getLast?_eq_some_getLast (Nat.digits_ne_nil_iff_ne_zero.mpr hne)] at hlast
  exact hlast' (Option.some.inj hlast)

theorem feed_digits (n : Nat) : feed m 0 (Nat.digits m n).reverse = n := by
  rw [feed_eq, List.reverse_reverse, Nat.mul_zero, Nat.add_zero, Nat.ofDigits_digits]

/-- **Without the zeros in front the buffer is the list of the digits.** -/
theorem Holds.strip {size n : Nat} {ds : List Nat} (h : Holds b size ds n) (hb : 1 < b) :
    ds.reverse.dropWhile (· = 0) = (Nat.digits b n).reverse := by
  have hlt : ∀ x ∈ ds.reverse.dropWhile (· = 0), x < b := by
    intro x hx
    exact h.lt x (List.mem_reverse.mp ((List.dropWhile_suffix _).subset hx))
  have hhead : (ds.reverse.dropWhile (· = 0)).head? ≠ some 0 := by
    intro hzero
    have hne := List.head?_dropWhile_not (fun x : Nat => decide (x = 0)) ds.reverse
    rw [hzero] at hne
    simp at hne
  have hfeed : feed b 0 (ds.reverse.dropWhile (· = 0)) = n := by
    have hsplit := List.takeWhile_append_dropWhile (p := fun x : Nat => decide (x = 0)) (l := ds.reverse)
    have hzeros : ds.reverse.takeWhile (· = 0) = List.replicate (ds.reverse.takeWhile (· = 0)).length 0 := by
      refine List.eq_replicate_of_mem fun x hx => ?_
      simpa using List.mem_takeWhile_imp hx
    rw [feed_eq, Nat.mul_zero, Nat.add_zero, ← h.value]
    conv_rhs => rw [← List.reverse_reverse ds, ← hsplit, List.reverse_append, hzeros, List.reverse_replicate]
    rw [Nat.ofDigits_append, Nat.ofDigits_replicate_zero, Nat.mul_zero, Nat.add_zero]
  rw [← hfeed, digits_feed hb hlt hhead]

end Sphinx.Radix
