import Mathlib.Algebra.Order.BigOperators.Group.List
import Mathlib.Algebra.Order.Ring.Int
import Mathlib.Data.List.NodupEquivFin
import Mathlib.Data.List.Perm.Subperm

/-!
# Matchings

`asked` and `offered` are lists of elements with a key and a weight.  `matched` has each element of
`offered` as often as its key is asked for.

* `weight_matched`: the total weight of the matched elements;
* `exact_of_subperm`: if all of `asked` is offered, with positive weights, and the matched elements do not
  weigh more than `asked`, each key is asked for once and offered once, apart from what weighs nothing;
* `subperm_of_exact`: the converse.

`greedyMatch ok as bs` goes through `bs` once and gives each element of `as` the first element left that
suits it.

* `greedyMatch_iff_strictMono`: it succeeds exactly when some strictly increasing map of positions gives every
  element of `as` an element of `bs` that suits it;
* `greedyMatch_reverse_iff`: it decides the same when it goes through both lists from the other end.
-/

namespace Sphinx.Matching

variable {α κ : Type} [DecidableEq κ] (key : α → κ) (weight : α → Int)

/-- How often the key of an element is asked for. -/
def copies (asked : List α) (b : α) : Nat := (asked.map key).count (key b)

def matched (asked offered : List α) : List α :=
  offered.flatMap fun b => List.replicate (copies key asked b) b

/-- No key is asked for twice, and what is offered under these keys and weighs something is just what is
asked for. -/
def Exact (asked offered : List α) : Prop :=
  (asked.map key).Nodup ∧ (offered.filter fun b => key b ∈ asked.map key ∧ weight b ≠ 0).Perm asked

variable {key weight} {asked offered : List α}

theorem copies_pos {b : α} : 0 < copies key asked b ↔ key b ∈ asked.map key := List.count_pos_iff

theorem weight_matched (asked offered : List α) : ((matched key asked offered).map weight).sum =
    (offered.map fun b => (copies key asked b : Int) * weight b).sum := by
  induction offered with
  | nil => rfl
  | cons b offered ih =>
    rw [matched, List.flatMap_cons, List.map_append, List.sum_append, ← matched, ih, List.map_cons,
      List.sum_cons, List.map_replicate, List.sum_replicate, nsmul_eq_mul]

theorem mem_matched {b : α} : b ∈ matched key asked offered ↔ b ∈ offered ∧ key b ∈ asked.map key := by
  unfold matched
  rw [List.mem_flatMap]
  constructor
  · rintro ⟨b', hb', hmem⟩
    obtain ⟨hne, rfl⟩ := List.mem_replicate.mp hmem
    exact ⟨hb', copies_pos.mp (Nat.pos_of_ne_zero hne)⟩
  · rintro ⟨hb, hkey⟩
    exact ⟨b, hb, List.mem_replicate.mpr ⟨(copies_pos.mpr hkey).ne', rfl⟩⟩

theorem subperm_of_exact (h : Exact key weight asked offered) : asked.Subperm offered :=
  h.2.symm.subperm.trans List.filter_sublist.subperm

/-- Nothing that weighs something is matched too often, or without being asked for. -/
theorem surplus_eq_zero {extra : List α} (hperm : offered.Perm (asked ++ extra))
    (hpos : ∀ a ∈ asked, 0 < weight a) (hnonneg : ∀ b ∈ matched key asked offered, 0 ≤ weight b)
    (hsum : ((matched key asked offered).map weight).sum ≤ (asked.map weight).sum) :
    (∀ a ∈ asked, ((copies key asked a : Int) - 1) * weight a = 0) ∧
      ∀ b ∈ extra, (copies key asked b : Int) * weight b = 0 := by
  have hasked : ∀ a ∈ asked, 0 ≤ ((copies key asked a : Int) - 1) * weight a := by
    intro a ha
    have hcount : 0 < copies key asked a := copies_pos.mpr (List.mem_map_of_mem ha)
    exact mul_nonneg (by omega) (hpos a ha).le
  have hextra : ∀ b ∈ extra, 0 ≤ (copies key asked b : Int) * weight b := by
    intro b hb
    by_cases hkey : key b ∈ asked.map key
    · have hmem : b ∈ offered := hperm.mem_iff.mpr (List.mem_append_right _ hb)
      exact mul_nonneg (Int.natCast_nonneg _) (hnonneg b (mem_matched.mpr ⟨hmem, hkey⟩))
    · have hnone : copies key asked b = 0 := List.count_eq_zero.mpr hkey
      rw [hnone, Nat.cast_zero, zero_mul]
  -- the surplus weighs as much as the matched elements do beyond what is asked for
  have hall := (hperm.map fun b => (copies key asked b : Int) * weight b).sum_eq
  rw [List.map_append, List.sum_append, ← weight_matched] at hall
  have hsplit : (asked.map fun a => (copies key asked a : Int) * weight a).sum
      = (asked.map fun a => ((copies key asked a : Int) - 1) * weight a).sum
        + (asked.map weight).sum := by
    rw [← List.sum_map_add]
    simp only [sub_mul, one_mul, sub_add_cancel]
  have hle := List.sum_nonneg (List.forall_mem_map.mpr hasked)
  have hle' := List.sum_nonneg (List.forall_mem_map.mpr hextra)
  constructor
  · intro a ha
    exact List.all_zero_of_le_zero_le_of_sum_eq_zero (List.forall_mem_map.mpr hasked) (by omega)
      (List.mem_map_of_mem ha)
  · intro b hb
    exact List.all_zero_of_le_zero_le_of_sum_eq_zero (List.forall_mem_map.mpr hextra) (by omega)
      (List.mem_map_of_mem hb)

theorem exact_of_subperm (hsub : asked.Subperm offered) (hpos : ∀ a ∈ asked, 0 < weight a)
    (hnonneg : ∀ b ∈ matched key asked offered, 0 ≤ weight b)
    (hsum : ((matched key asked offered).map weight).sum ≤ (asked.map weight).sum) :
    Exact key weight asked offered := by
  obtain ⟨l, hl, hsublist⟩ := hsub
  obtain ⟨extra, hextra⟩ := hsublist.exists_perm_append
  have hperm : offered.Perm (asked ++ extra) := hextra.trans (hl.append_right extra)
  obtain ⟨honce, hnone⟩ := surplus_eq_zero hperm hpos hnonneg hsum
  constructor
  · rw [List.nodup_iff_count_eq_one, List.forall_mem_map]
    intro a ha
    have h := (mul_eq_zero.mp (honce a ha)).resolve_right (hpos a ha).ne'
    unfold copies at h
    omega
  · refine (hperm.filter _).trans ?_
    rw [List.filter_append, List.filter_eq_self.mpr, List.filter_eq_nil_iff.mpr, List.append_nil]
    · intro b hb
      rcases mul_eq_zero.mp (hnone b hb) with h | h
      · have hkey : key b ∉ asked.map key := List.count_eq_zero.mp (Int.natCast_eq_zero.mp h)
        simp [hkey]
      · simp [h]
    · intro a ha
      have hkey : key a ∈ asked.map key := List.mem_map_of_mem ha
      simp [hkey, (hpos a ha).ne']

end Sphinx.Matching

/-! ### Matching in order -/

namespace Sphinx.OrderMatch

variable {α β : Type} {ok : α → β → Bool}
variable {as : List α} {bs : List β}

def greedyMatch (ok : α → β → Bool) : List α → List β → Bool
  | [], _ => true
  | _ :: _, [] => false
  | a :: as, b :: bs => if ok a b then greedyMatch ok as bs else greedyMatch ok (a :: as) bs

/-- Every element of `as` gets an element of `bs` that suits it, in order. -/
abbrev InOrder (ok : α → β → Bool) (as : List α) (bs : List β) : Prop :=
  List.SublistForall₂ (fun a b => ok a b = true) as bs

theorem InOrder.length_le (h : InOrder ok as bs) : as.length ≤ bs.length := by
  obtain ⟨bs', hforall, hsub⟩ := List.sublistForall₂_iff.mp h
  calc as.length = bs'.length := hforall.length_eq
    _ ≤ bs.length := hsub.length_le

theorem InOrder.tail {a : α} (h : InOrder ok (a :: as) bs) : InOrder ok as bs := by
  induction bs with
  | nil => cases h
  | cons b bs ih =>
    cases h with
    | cons _ hrest => exact .cons_right hrest
    | cons_right hrest => exact .cons_right (ih hrest)

/-- The exchange: if the first two suit each other, nothing is lost by matching them. -/
theorem InOrder.of_head {a : α} {b : β} (h : InOrder ok (a :: as) (b :: bs)) :
    InOrder ok as bs := by
  cases h with
  | cons _ hrest => exact hrest
  | cons_right hrest => exact InOrder.tail hrest

theorem greedyMatch_iff_inOrder (as : List α) (bs : List β) :
    greedyMatch ok as bs = true ↔ InOrder ok as bs := by
  induction as, bs using greedyMatch.induct ok with
  | case1 bs => exact iff_of_true (by rw [greedyMatch]) .nil
  | case2 a as =>
    refine iff_of_false (by rw [greedyMatch]; exact Bool.false_ne_true) ?_
    intro h
    cases h
  | case3 a as b bs hok ih =>
    rw [greedyMatch, if_pos hok, ih]
    exact ⟨fun h => .cons hok h, fun h => h.of_head⟩
  | case4 a as b bs hok ih =>
    rw [greedyMatch, if_neg hok, ih]
    constructor
    · exact fun h => .cons_right h
    · intro h
      cases h with
      | cons h _ => exact absurd h hok
      | cons_right h => exact h

theorem greedyMatch_of_length_lt (h : bs.length < as.length) :
    greedyMatch ok as bs = false := by
  rw [← Bool.not_eq_true, greedyMatch_iff_inOrder]
  intro hin
  exact absurd hin.length_le (by omega)

theorem inOrder_iff_strictMono (as : List α) (bs : List β) :
    InOrder ok as bs ↔
      ∃ f : Fin as.length → Fin bs.length, StrictMono f ∧ ∀ i, ok (as.get i) (bs.get (f i)) = true := by
  rw [InOrder, List.sublistForall₂_iff]
  constructor
  · rintro ⟨bs', hforall, hsub⟩
    have hlen := hforall.length_eq
    obtain ⟨f, hf⟩ := List.sublist_iff_exists_fin_orderEmbedding_get_eq.mp hsub
    refine ⟨fun i => f (Fin.cast hlen i), fun i j hij => f.strictMono hij, fun i => ?_⟩
    rw [← hf (Fin.cast hlen i)]
    exact hforall.get i.isLt (by omega)
  · rintro ⟨f, hf, hok⟩
    refine ⟨(List.finRange as.length).map fun i => bs.get (f i), ?_, ?_⟩
    · have has : as = (List.finRange as.length).map as.get := (List.map_get_finRange as).symm
      rw [List.forall₂_map_right_iff]
      conv_lhs => rw [has]
      rw [List.forall₂_map_left_iff]
      exact List.forall₂_same.mpr fun i _ => hok i
    · refine List.sublist_iff_exists_fin_orderEmbedding_get_eq.mpr ?_
      have hlen : ((List.finRange as.length).map fun i => bs.get (f i)).length = as.length := by simp
      refine ⟨OrderEmbedding.ofStrictMono (fun i => f (Fin.cast hlen i)) fun i j hij => hf hij, fun i => ?_⟩
      simp only [List.get_eq_getElem, List.getElem_map, List.getElem_finRange]
      rfl

theorem InOrder.reverse (h : InOrder ok as bs) :
    InOrder ok as.reverse bs.reverse := by
  obtain ⟨bs', hforall, hsub⟩ := List.sublistForall₂_iff.mp h
  exact List.sublistForall₂_iff.mpr ⟨bs'.reverse, List.forall₂_reverse_iff.mpr hforall, hsub.reverse⟩

theorem inOrder_reverse_iff (as : List α) (bs : List β) :
    InOrder ok as.reverse bs.reverse ↔ InOrder ok as bs := by
  constructor
  · intro h
    have hrev := h.reverse
    rwa [List.reverse_reverse, List.reverse_reverse] at hrev
  · exact InOrder.reverse

/-- The greedy pass from the last elements on decides the same. -/
theorem greedyMatch_reverse_iff (as : List α) (bs : List β) :
    greedyMatch ok as.reverse bs.reverse = true ↔
      ∃ f : Fin as.length → Fin bs.length, StrictMono f ∧ ∀ i, ok (as.get i) (bs.get (f i)) = true := by
  rw [greedyMatch_iff_inOrder, inOrder_reverse_iff, inOrder_iff_strictMono]

end Sphinx.OrderMatch
