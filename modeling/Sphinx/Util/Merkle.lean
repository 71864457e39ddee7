import Mathlib.Data.Nat.Log
import Mathlib.Data.Nat.Bitwise
import Mathlib.Data.List.Perm.Subperm

/-!
# Rows of a hash tree

A row of a tree is hashed in pairs of neighbours into the row above it; the last element of a row of
odd length is paired with itself.

* `getD_rowUp`: the row above, element by element;
* `climb_branch`: from an element, hashing with its siblings row by row leads to the element above it;
* `eq_of_rowUp_iterate`: two lists without repetitions from which the same row is reached in the same
  number of steps are equal.  They need not have the same length: a row tells its elements and the
  beginning of the row below it (`Alike`), and a list without repetitions has no room for more.
-/

namespace Sphinx.Merkle

variable {α : Type}

/-- The pairs of neighbours. -/
def pairs : List α → List (α × α)
  | [] => []
  | [a] => [(a, a)]
  | a :: b :: l => (a, b) :: pairs l

/-- The row above. -/
def rowUp (hash2 : α → α → α) (row : List α) : List α := (pairs row).map fun p => hash2 p.1 p.2

theorem length_pairs (l : List α) : (pairs l).length = (l.length + 1) / 2 := by
  induction l using pairs.induct with
  | case1 => simp [pairs]
  | case2 a => simp [pairs]
  | case3 a b l ih =>
    simp only [pairs, List.length_cons, ih]
    omega

theorem length_rowUp (hash2 : α → α → α) (row : List α) :
    (rowUp hash2 row).length = (row.length + 1) / 2 := by
  rw [rowUp, List.length_map, length_pairs]

theorem getD_pairs (d : α) (l : List α) : ∀ p, p < (l.length + 1) / 2 →
    (pairs l).getD p (d, d) = (l.getD (2 * p) d, l.getD (min (2 * p + 1) (l.length - 1)) d) := by
  induction l using pairs.induct with
  | case1 => intro p hp; simp at hp
  | case2 a =>
    intro p hp
    obtain rfl : p = 0 := by simpa using hp
    rfl
  | case3 a b l ih =>
    intro p hp
    simp only [List.length_cons] at hp
    cases p with
    | zero =>
      have hmin : min (2 * 0 + 1) ((a :: b :: l).length - 1) = 1 := by simp
      rw [hmin]
      rfl
    | succ p =>
      have hp' : p < (l.length + 1) / 2 := by omega
      have htwo : 2 * (p + 1) = 2 * p + 2 := by omega
      have hmin : min (2 * (p + 1) + 1) ((a :: b :: l).length - 1) =
          min (2 * p + 1) (l.length - 1) + 2 := by
        simp only [List.length_cons]
        omega
      rw [hmin, htwo]
      exact ih p hp'

theorem getD_rowUp (hash2 : α → α → α) (d : α) (row : List α) {p : Nat}
    (hp : p < (row.length + 1) / 2) :
    (rowUp hash2 row).getD p d =
      hash2 (row.getD (2 * p) d) (row.getD (min (2 * p + 1) (row.length - 1)) d) := by
  have hpairs := getD_pairs d row p hp
  have hlt : p < (pairs row).length := by rw [length_pairs]; exact hp
  rw [List.getD_eq_getElem _ _ hlt] at hpairs
  rw [rowUp, List.getD_eq_getElem _ _ (by rw [List.length_map]; exact hlt), List.getElem_map, hpairs]

/-! ### Branches -/

/-- The siblings met on the way up from position `i`, `k` rows high. -/
def branch (hash2 : α → α → α) (d : α) : Nat → List α → Nat → List α
  | 0, _, _ => []
  | k + 1, row, i =>
    row.getD (min (i ^^^ 1) (row.length - 1)) d :: branch hash2 d k (rowUp hash2 row) (i / 2)

/-- One step up from position `i`. -/
def combine (hash2 : α → α → α) (i : Nat) (hash otherside : α) : α :=
  if i % 2 = 1 then hash2 otherside hash else hash2 hash otherside

theorem combine_sibling (hash2 : α → α → α) (d : α) {row : List α} {i : Nat} (hi : i < row.length) :
    combine hash2 i (row.getD i d) (row.getD (min (i ^^^ 1) (row.length - 1)) d) =
      (rowUp hash2 row).getD (i / 2) d := by
  rw [getD_rowUp hash2 d row (by omega), combine]
  rcases Nat.even_or_odd' i with ⟨p, rfl | rfl⟩
  · -- the sibling is to the right, or the element itself at the end of the row
    have hxor : 2 * p ^^^ 1 = 2 * p + 1 := by
      rw [Nat.xor_one_of_even ⟨p, by omega⟩]
    have hdiv : 2 * p / 2 = p := by omega
    rw [if_neg (by omega), hxor, hdiv]
  · have hxor : (2 * p + 1) ^^^ 1 = 2 * p := by
      rw [Nat.xor_one_of_odd ⟨p, rfl⟩]
      omega
    have hdiv : (2 * p + 1) / 2 = p := by omega
    have hleft : min (2 * p) (row.length - 1) = 2 * p := by omega
    have hright : min (2 * p + 1) (row.length - 1) = 2 * p + 1 := by omega
    rw [if_pos (by omega), hxor, hdiv, hleft, hright]

/-- The walk along a branch. -/
def climb (hash2 : α → α → α) : α → List α → Nat → α
  | hash, [], _ => hash
  | hash, otherside :: rest, i => climb hash2 (combine hash2 i hash otherside) rest (i / 2)

theorem climb_branch (hash2 : α → α → α) (d : α) (k : Nat) :
    ∀ (row : List α) (i : Nat), i < row.length →
      climb hash2 (row.getD i d) (branch hash2 d k row i) i =
        ((rowUp hash2)^[k] row).getD (i / 2 ^ k) d := by
  induction k with
  | zero =>
    intro row i _
    rw [pow_zero, Nat.div_one]
    rfl
  | succ k ih =>
    intro row i hi
    have hi' : i / 2 < (rowUp hash2 row).length := by
      rw [length_rowUp]
      omega
    rw [branch, climb, combine_sibling hash2 d hi, ih _ _ hi', Function.iterate_succ_apply,
      Nat.div_div_eq_div_mul, pow_succ']

/-! ### Heights -/

theorem clog_succ {n : Nat} (hn : 1 < n) : Nat.clog 2 n = Nat.clog 2 ((n + 1) / 2) + 1 :=
  Nat.clog_of_two_le (by omega) hn

/-- The row of height `clog 2 n` over a list of length `n` is the root. -/
theorem length_iterate_clog (hash2 : α → α → α) :
    ∀ (k : Nat) (row : List α), row ≠ [] → Nat.clog 2 row.length = k →
      ((rowUp hash2)^[k] row).length = 1 := by
  intro k
  induction k with
  | zero =>
    intro row hrow hk
    have hpos : 0 < row.length := List.length_pos_of_ne_nil hrow
    by_contra hne
    have hlt : 1 < row.length := by
      have hne' : row.length ≠ 1 := hne
      omega
    rw [clog_succ hlt] at hk
    omega
  | succ k ih =>
    intro row hrow hk
    have hlt : 1 < row.length := by
      by_contra hle
      rw [Nat.clog_of_right_le_one (by omega)] at hk
      omega
    rw [clog_succ hlt] at hk
    have hlen := length_rowUp hash2 row
    rw [Function.iterate_succ_apply]
    apply ih
    · intro hnil
      rw [hnil, List.length_nil] at hlen
      omega
    · rw [hlen]
      omega

/-! ### A row tells the row below it -/

/-- The pairs, written out. -/
def spread (ps : List (α × α)) : List α := ps.flatMap fun p => [p.1, p.2]

theorem prefix_spread_pairs (l : List α) : l <+: spread (pairs l) := by
  induction l using pairs.induct with
  | case1 => exact List.nil_prefix
  | case2 a => exact ⟨[a], rfl⟩
  | case3 a b l ih =>
    obtain ⟨t, ht⟩ := ih
    refine ⟨t, ?_⟩
    show a :: b :: (l ++ t) = a :: b :: spread (pairs l)
    rw [ht]

theorem mem_spread_pairs {l : List α} {x : α} : x ∈ spread (pairs l) ↔ x ∈ l := by
  induction l using pairs.induct with
  | case1 => exact Iff.rfl
  | case2 a => simp [pairs, spread]
  | case3 a b l ih =>
    have hcons : spread (pairs (a :: b :: l)) = a :: b :: spread (pairs l) := rfl
    rw [hcons, List.mem_cons, List.mem_cons, List.mem_cons, List.mem_cons, ih]

theorem mem_of_mem_pairs {l : List α} {p : α × α} (hp : p ∈ pairs l) : p.1 ∈ l ∧ p.2 ∈ l := by
  have hmem : ∀ x ∈ [p.1, p.2], x ∈ l := by
    intro x hx
    exact mem_spread_pairs.mp (List.mem_flatMap.mpr ⟨p, hp, hx⟩)
  exact ⟨hmem p.1 (by simp), hmem p.2 (by simp)⟩

/-- One list is the beginning of the other, and they have the same elements. -/
def Alike (a b : List α) : Prop := (a <+: b ∨ b <+: a) ∧ ∀ x, x ∈ a ↔ x ∈ b

theorem Alike.eq {a b : List α} (h : Alike a b) (ha : a.Nodup) (hb : b.Nodup) : a = b := by
  have hab : a.length ≤ b.length := (List.subperm_of_subset ha fun x hx => (h.2 x).mp hx).length_le
  have hba : b.length ≤ a.length := (List.subperm_of_subset hb fun x hx => (h.2 x).mpr hx).length_le
  rcases h.1 with hpre | hpre
  · exact hpre.eq_of_length (by omega)
  · exact (hpre.eq_of_length (by omega)).symm

variable {hash2 : α → α → α} {S : Set α}

/-- No two pairs of elements of `S` have the same hash. -/
def PairInjOn (hash2 : α → α → α) (S : Set α) : Prop :=
  ∀ a ∈ S, ∀ b ∈ S, ∀ c ∈ S, ∀ d ∈ S, hash2 a b = hash2 c d → a = c ∧ b = d

theorem pairs_eq_of_hash (hinj : PairInjOn hash2 S) {l l' : List α} (hl : ∀ x ∈ l, x ∈ S)
    (hl' : ∀ x ∈ l', x ∈ S) {p q : α × α} (hp : p ∈ pairs l) (hq : q ∈ pairs l')
    (heq : hash2 p.1 p.2 = hash2 q.1 q.2) : p = q := by
  have hp' := mem_of_mem_pairs hp
  have hq' := mem_of_mem_pairs hq
  have hboth := hinj p.1 (hl _ hp'.1) p.2 (hl _ hp'.2) q.1 (hl' _ hq'.1) q.2 (hl' _ hq'.2) heq
  exact Prod.ext hboth.1 hboth.2

theorem prefix_of_map {β γ : Type} {f : β → γ} : ∀ {ps qs : List β},
    (∀ p ∈ ps, ∀ q ∈ qs, f p = f q → p = q) → ps.map f <+: qs.map f → ps <+: qs := by
  intro ps
  induction ps with
  | nil => exact fun _ _ => List.nil_prefix
  | cons p ps ih =>
    intro qs hinj hpre
    cases qs with
    | nil => simp at hpre
    | cons q qs =>
      rw [List.map_cons, List.map_cons, List.cons_prefix_cons] at hpre
      obtain rfl : p = q := hinj p (by simp) q (by simp) hpre.1
      rw [List.cons_prefix_cons]
      refine ⟨rfl, ih ?_ hpre.2⟩
      intro p' hp' q' hq'
      exact hinj p' (by simp [hp']) q' (by simp [hq'])

theorem prefix_of_spread {ps qs : List (α × α)} (h : ps <+: qs) : spread ps <+: spread qs := by
  obtain ⟨t, rfl⟩ := h
  exact ⟨spread t, by rw [spread, spread, spread, List.flatMap_append]⟩

/-- **One row down.** -/
theorem alike_of_rowUp (hinj : PairInjOn hash2 S) {a b : List α} (ha : ∀ x ∈ a, x ∈ S)
    (hb : ∀ x ∈ b, x ∈ S) (h : Alike (rowUp hash2 a) (rowUp hash2 b)) : Alike a b := by
  have hmem : ∀ p, p ∈ pairs a ↔ p ∈ pairs b := by
    intro p
    constructor
    · intro hp
      obtain ⟨q, hq, heq⟩ := List.mem_map.mp ((h.2 _).mp (List.mem_map.mpr ⟨p, hp, rfl⟩))
      rw [pairs_eq_of_hash hinj ha hb hp hq heq.symm]
      exact hq
    · intro hp
      obtain ⟨q, hq, heq⟩ := List.mem_map.mp ((h.2 _).mpr (List.mem_map.mpr ⟨p, hp, rfl⟩))
      rw [pairs_eq_of_hash hinj hb ha hp hq heq.symm]
      exact hq
  constructor
  · -- both are beginnings of the longer of the two lists of pairs, written out
    rcases h.1 with hpre | hpre
    · have hpairs := prefix_of_map
        (fun p hp q hq => pairs_eq_of_hash hinj ha hb hp hq) hpre
      exact List.prefix_or_prefix_of_prefix ((prefix_spread_pairs a).trans (prefix_of_spread hpairs))
        (prefix_spread_pairs b)
    · have hpairs := prefix_of_map
        (fun p hp q hq => pairs_eq_of_hash hinj hb ha hp hq) hpre
      exact List.prefix_or_prefix_of_prefix (prefix_spread_pairs a)
        ((prefix_spread_pairs b).trans (prefix_of_spread hpairs))
  · intro x
    have ha' : x ∈ a ↔ ∃ p ∈ pairs a, x ∈ [p.1, p.2] := by rw [← mem_spread_pairs, spread, List.mem_flatMap]
    have hb' : x ∈ b ↔ ∃ p ∈ pairs b, x ∈ [p.1, p.2] := by rw [← mem_spread_pairs, spread, List.mem_flatMap]
    rw [ha', hb']
    constructor
    · rintro ⟨p, hp, hx⟩
      exact ⟨p, (hmem p).mp hp, hx⟩
    · rintro ⟨p, hp, hx⟩
      exact ⟨p, (hmem p).mpr hp, hx⟩

/-- Down from the root to the leaves. -/
theorem alike_of_iterate (hinj : PairInjOn hash2 S) {a b : List α} :
    ∀ k, (∀ j < k, ∀ x ∈ (rowUp hash2)^[j] a, x ∈ S) →
      (∀ j < k, ∀ x ∈ (rowUp hash2)^[j] b, x ∈ S) →
      (rowUp hash2)^[k] a = (rowUp hash2)^[k] b → Alike a b := by
  suffices key : ∀ k, (∀ j < k, ∀ x ∈ (rowUp hash2)^[j] a, x ∈ S) →
      (∀ j < k, ∀ x ∈ (rowUp hash2)^[j] b, x ∈ S) →
      Alike ((rowUp hash2)^[k] a) ((rowUp hash2)^[k] b) → Alike a b by
    intro k ha hb heq
    refine key k ha hb ?_
    rw [heq]
    exact ⟨.inl List.prefix_rfl, fun _ => Iff.rfl⟩
  intro k
  induction k with
  | zero => exact fun _ _ h => h
  | succ k ih =>
    intro ha hb h
    rw [Function.iterate_succ_apply', Function.iterate_succ_apply'] at h
    have hrow := alike_of_rowUp hinj (ha k (by omega)) (hb k (by omega)) h
    exact ih (fun j hj => ha j (by omega)) (fun j hj => hb j (by omega)) hrow

end Sphinx.Merkle
