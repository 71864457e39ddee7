import Mathlib.Data.Finset.Card
import Mathlib.Data.Nat.Find
import Mathlib.Order.Bounds.Basic

/-!
# Chains and reachability

Removing a set that is closed under a relation from its graph does not change what can be reached
outside the set.  This is what makes a removal of everything reachable from several starting points,
one after the other, the same as the removal of all of it at once.

* `reach_or_mem`, `reach_of_avoiding`: reachability in the graph without a closed set `R`;
* `card_descendants_lt`: in a finite acyclic graph the number of proper descendants goes down along
  an edge.

A loop that moves from one element to the next until there is none.  It ends when some measure goes
down at every move.

A chain goes on with a step as long as there is one.  `IsShortest step a d`: the shortest chain from `a` to an element
without a step has `d` steps.

* `isShortest_stop`, `isShortest_next`: the shortest chain by the next elements;
* `exists_endsAfter_of_rank`: without cycles every chain ends.
-/

namespace Sphinx.Reach

open Relation

variable {α : Type} {r r' : α → α → Prop} {R : Set α}

/-- With an element, `R` holds everything the relation leads to. -/
def Closed (r : α → α → Prop) (R : Set α) : Prop := ∀ {a b}, a ∈ R → r a b → b ∈ R

/-- `r'` is `r` outside `R`. -/
def Avoiding (r r' : α → α → Prop) (R : Set α) : Prop := ∀ a b, r' a b ↔ r a b ∧ a ∉ R ∧ b ∉ R

theorem closed_reach (r : α → α → Prop) (S : Set α) :
    Closed r {b | ∃ a ∈ S, ReflTransGen r a b} := by
  rintro b c ⟨a, ha, hab⟩ hbc
  exact ⟨a, ha, hab.tail hbc⟩

theorem Closed.mem_of_reach (hR : Closed r R) {a b : α} (ha : a ∈ R) (hab : ReflTransGen r a b) :
    b ∈ R := by
  induction hab with
  | refl => exact ha
  | tail _ hbc ih => exact hR ih hbc

theorem reach_or_mem (hR : Closed r R) (hr : Avoiding r r' R) {a b : α}
    (hab : ReflTransGen r a b) : b ∈ R ∨ ReflTransGen r' a b := by
  induction hab with
  | refl => exact .inr .refl
  | @tail b c _ hbc ih =>
    by_cases hc : c ∈ R
    · exact .inl hc
    have hb : b ∉ R := fun hb => hc (hR hb hbc)
    rcases ih with hb' | hab'
    · exact absurd hb' hb
    · exact .inr (hab'.tail ((hr b c).mpr ⟨hbc, hb, hc⟩))

theorem reach_of_avoiding (hr : Avoiding r r' R) {a b : α} (hab : ReflTransGen r' a b) :
    ReflTransGen r a b :=
  ReflTransGen.mono (fun x y hxy => ((hr x y).mp hxy).1) a b hab

open Classical in
/-- The proper descendants of `a` among the elements of `s`. -/
noncomputable def descendants (r : α → α → Prop) (s : Finset α) (a : α) : Finset α :=
  s.filter fun b => TransGen r a b

theorem card_descendants_lt {s : Finset α} {a b : α} (hacyc : ∀ x, ¬ TransGen r x x) (hb : b ∈ s)
    (hab : r a b) : (descendants r s b).card < (descendants r s a).card := by
  classical
  apply Finset.card_lt_card
  rw [Finset.ssubset_iff_of_subset]
  · -- `b` itself is lost
    refine ⟨b, ?_, ?_⟩
    · exact Finset.mem_filter.mpr ⟨hb, .single hab⟩
    · intro hmem
      exact hacyc b (Finset.mem_filter.mp hmem).2
  · intro x hx
    obtain ⟨hxs, hbx⟩ := Finset.mem_filter.mp hx
    exact Finset.mem_filter.mpr ⟨hxs, .head hab hbx⟩

theorem card_descendants_mono {s s' : Finset α} {a : α} (hs : s' ⊆ s)
    (hr : ∀ x y, r' x y → r x y) : (descendants r' s' a).card ≤ (descendants r s a).card := by
  classical
  apply Finset.card_le_card
  intro x hx
  obtain ⟨hxs, hax⟩ := Finset.mem_filter.mp hx
  exact Finset.mem_filter.mpr ⟨hs hxs, TransGen.mono hr a x hax⟩

theorem card_descendants_le (r : α → α → Prop) (s : Finset α) (a : α) :
    (descendants r s a).card ≤ s.card := by
  classical
  exact Finset.card_filter_le _ _

end Sphinx.Reach

/-! ### Loops that follow a chain of pointers -/

namespace Sphinx.Follow

variable {α : Type}

/-- The last element of the chain, `none` if it is longer than `fuel`. -/
def follow (next : α → Option α) : Nat → α → Option α
  | 0, _ => none
  | fuel + 1, a =>
    match next a with
    | none => some a
    | some b => follow next fuel b

/-- Enough fuel for the loop to end. -/
theorem exists_follow (next : α → Option α) (P : α → Prop) (μ : α → Nat)
    (hnext : ∀ {a b}, P a → next a = some b → P b ∧ μ b < μ a) :
    ∀ {fuel : Nat} (a : α), P a → μ a < fuel → ∃ b, follow next fuel a = some b := by
  intro fuel
  induction fuel with
  | zero =>
    intro a _ hlt
    omega
  | succ fuel ih =>
    intro a ha hlt
    unfold follow
    cases hb : next a with
    | none => exact ⟨a, rfl⟩
    | some b =>
      obtain ⟨hPb, hμ⟩ := hnext ha hb
      exact ih b hPb (by omega)

/-- What every move keeps holds at the end, where there is no further element. -/
theorem follow_inv {next : α → Option α} (P : α → Prop) (hnext : ∀ {a b}, P a → next a = some b → P b) :
    ∀ {fuel : Nat} {a b : α}, P a → follow next fuel a = some b → P b ∧ next b = none := by
  intro fuel
  induction fuel with
  | zero =>
    intro a b _ h
    cases h
  | succ fuel ih =>
    intro a b ha h
    unfold follow at h
    cases hc : next a with
    | none =>
      rw [hc] at h
      cases h
      exact ⟨ha, hc⟩
    | some c =>
      rw [hc] at h
      exact ih (hnext ha hc) h

end Sphinx.Follow

/-! ### Shortest chains of a relation -/

namespace Sphinx.ShortestChain

variable {α : Type} (step : α → α → Prop)

/-- A chain from `a` with `k` steps to an element that has no step. -/
inductive EndsAfter : α → Nat → Prop
  | stop {a : α} (h : ∀ b, ¬ step a b) : EndsAfter a 0
  | next {a b : α} {k : Nat} (hab : step a b) (h : EndsAfter b k) : EndsAfter a (k + 1)

/-- `b` is `k` steps behind `a`. -/
inductive Behind : Nat → α → α → Prop
  | refl (a : α) : Behind 0 a a
  | next {k : Nat} {a b c : α} (hab : step a b) (h : Behind k b c) : Behind (k + 1) a c

def IsShortest (a : α) (d : Nat) : Prop := IsLeast {k | EndsAfter step a k} d

variable {step} {a b : α} {d n : Nat}

theorem exists_isShortest (h : ∃ k, EndsAfter step a k) : ∃ d, IsShortest step a d := by
  classical
  exact ⟨Nat.find h, Nat.find_spec h, fun k hk => Nat.find_min' h hk⟩

theorem isShortest_stop (h : ∀ b, ¬ step a b) : IsShortest step a 0 :=
  ⟨.stop h, fun k _ => Nat.zero_le k⟩

theorem lt_of_endsAfter {k : Nat} (hk : EndsAfter step a k) (hab : step a b)
    (h : ∀ c, step a c → ∀ d, IsShortest step c d → n ≤ d) : n + 1 ≤ k := by
  cases hk with
  | stop hstop => exact absurd hab (hstop b)
  | next hac hc =>
    obtain ⟨d, hd⟩ := exists_isShortest ⟨_, hc⟩
    exact Nat.succ_le_succ ((h _ hac d hd).trans (hd.2 hc))

theorem isShortest_next (hab : step a b) (hb : IsShortest step b d)
    (h : ∀ c, step a c → ∀ d', IsShortest step c d' → d ≤ d') : IsShortest step a (d + 1) :=
  ⟨.next hab hb.1, fun _ hk => lt_of_endsAfter hk hab h⟩

theorem exists_endsAfter_of_rank {rank : α → Nat} (hrank : ∀ a b, step a b → rank b < rank a) (a : α) :
    ∃ k, EndsAfter step a k := by
  induction hr : rank a using Nat.strong_induction_on generalizing a with
  | _ r ih =>
    by_cases h : ∃ b, step a b
    · obtain ⟨b, hab⟩ := h
      obtain ⟨k, hk⟩ := ih (rank b) (by rw [← hr]; exact hrank a b hab) b rfl
      exact ⟨k + 1, .next hab hk⟩
    · exact ⟨0, .stop fun b hab => h ⟨b, hab⟩⟩

theorem IsShortest.unique {d' : Nat} (h : IsShortest step a d) (h' : IsShortest step a d') : d = d' :=
  IsLeast.unique h h'

end Sphinx.ShortestChain
