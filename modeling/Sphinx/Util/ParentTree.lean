import Mathlib.Data.Set.Basic
import Mathlib.Data.List.Basic

/-!
# Trees given by parent pointers

A tree is a function `parent` that is undefined at the root, with the height of each element.  An
element counts as its own ancestor.

* `IsLca`: lowest common ancestors, and how they change when one of the elements is replaced by its
  parent (`IsLca.of_parent_left`, `IsLca.of_parent_right`);
* `IsPath`: the elements from one element up to an ancestor, which is left out;
* `climb`: the ancestor some levels up, and which levels there are (`Graded.climb_isSome_iff`,
  `Graded.climb_of_ancestor`);
* `Follows`: pointers from each ancestor of a tip to the next element on the way to the tip, and how
  they change when the tip moves to a child or to its parent (`Follows.extend`, `Follows.retract`).
-/

namespace Sphinx.ParentTree

open Relation

variable {κ : Type} {parent : κ → Option κ} {height : κ → Nat} {V : Set κ} {root : κ}
variable {a b : κ} {l : List κ} {next : κ → Option κ}

/-- `b` is `a` or an ancestor of `a`. -/
def Ancestor (parent : κ → Option κ) (a b : κ) : Prop :=
  ReflTransGen (fun x y => parent x = some y) a b

/-- `V` is closed under `parent`, which goes down by one level down to the only root. -/
structure Graded (parent : κ → Option κ) (height : κ → Nat) (V : Set κ) (root : κ) : Prop where
  parent_mem : ∀ {a p}, a ∈ V → parent a = some p → p ∈ V
  height_eq : ∀ {a p}, a ∈ V → parent a = some p → height a = height p + 1
  eq_root : ∀ {a}, a ∈ V → parent a = none → a = root
  height_root : height root = 0

/-! ### Ancestors -/

theorem ancestor_refl (a : κ) : Ancestor parent a a := .refl

theorem Ancestor.trans {c : κ} (hab : Ancestor parent a b) (hbc : Ancestor parent b c) :
    Ancestor parent a c := ReflTransGen.trans hab hbc

theorem Ancestor.of_parent {p : κ} (hp : parent a = some p) (hb : Ancestor parent p b) :
    Ancestor parent a b := ReflTransGen.head hp hb

theorem ancestor_iff {p : κ} (hp : parent a = some p) :
    Ancestor parent a b ↔ a = b ∨ Ancestor parent p b := by
  constructor
  · intro h
    rcases ReflTransGen.cases_head h with rfl | ⟨q, hq, hb⟩
    · exact .inl rfl
    · obtain rfl := Option.some.inj (hp.symm.trans hq)
      exact .inr hb
  · rintro (rfl | h)
    · exact .refl
    · exact .of_parent hp h

theorem eq_of_ancestor_root (ha : parent a = none) (h : Ancestor parent a b) : a = b := by
  rcases ReflTransGen.cases_head h with rfl | ⟨q, hq, -⟩
  · rfl
  · rw [ha] at hq
    cases hq

theorem Ancestor.exists_child (h : Ancestor parent a b) (hne : a ≠ b) :
    ∃ n, parent n = some b ∧ Ancestor parent a n := by
  rcases ReflTransGen.cases_tail h with heq | ⟨n, hn, hb⟩
  · exact absurd heq.symm hne
  · exact ⟨n, hb, hn⟩

namespace Graded

variable (hg : Graded parent height V root)

include hg

theorem mem_of_ancestor (ha : a ∈ V) (h : Ancestor parent a b) : b ∈ V := by
  induction h with
  | refl => exact ha
  | tail _ hp ih => exact hg.parent_mem ih hp

theorem height_le (ha : a ∈ V) (h : Ancestor parent a b) : height b ≤ height a := by
  induction h with
  | refl => exact Nat.le_refl _
  | tail hb hp ih =>
    have := hg.height_eq (hg.mem_of_ancestor ha hb) hp
    omega

theorem eq_of_ancestor (ha : a ∈ V) (h : Ancestor parent a b) (hle : height a ≤ height b) : a = b := by
  rcases ReflTransGen.cases_head h with rfl | ⟨p, hp, hb⟩
  · rfl
  · have h1 := hg.height_eq ha hp
    have h2 := hg.height_le (hg.parent_mem ha hp) hb
    omega

theorem ancestor_congr {parent' : κ → Option κ} (hsame : ∀ a ∈ V, parent' a = parent a) (ha : a ∈ V) :
    Ancestor parent' a b ↔ Ancestor parent a b := by
  constructor
  · intro h
    induction h with
    | refl => exact ancestor_refl a
    | @tail c d _ hp ih =>
      rw [hsame c (hg.mem_of_ancestor ha ih)] at hp
      exact ReflTransGen.tail ih hp
  · intro h
    induction h with
    | refl => exact ancestor_refl a
    | @tail c d hc hp ih =>
      rw [← hsame c (hg.mem_of_ancestor ha hc)] at hp
      exact ReflTransGen.tail ih hp

theorem eq_root_of_height (ha : a ∈ V) (h : height a = 0) : a = root := by
  cases hp : parent a with
  | none => exact hg.eq_root ha hp
  | some p =>
    have := hg.height_eq ha hp
    omega

theorem not_ancestor_parent {p : κ} (ha : a ∈ V) (hp : parent a = some p) :
    ¬ Ancestor parent p a := by
  intro h
  have h1 := hg.height_eq ha hp
  have h2 := hg.height_le (hg.parent_mem ha hp) h
  omega

end Graded

/-! ### Lowest common ancestors -/

/-- `c` is a common ancestor of `a` and `b` that has all of them among its ancestors. -/
structure IsLca (parent : κ → Option κ) (a b c : κ) : Prop where
  left : Ancestor parent a c
  right : Ancestor parent b c
  lowest : ∀ d, Ancestor parent a d → Ancestor parent b d → Ancestor parent c d

theorem isLca_self (a : κ) : IsLca parent a a a :=
  ⟨ancestor_refl a, ancestor_refl a, fun _ h _ => h⟩

theorem IsLca.symm {c : κ} (h : IsLca parent a b c) : IsLca parent b a c :=
  ⟨h.right, h.left, fun d hb ha => h.lowest d ha hb⟩

theorem IsLca.of_parent_right {p c : κ} (h : IsLca parent a p c) (hp : parent b = some p)
    (hnot : ¬ Ancestor parent a b) : IsLca parent a b c := by
  refine ⟨h.left, h.right.of_parent hp, fun d ha hb => ?_⟩
  rcases (ancestor_iff hp).mp hb with rfl | hb
  · exact absurd ha hnot
  · exact h.lowest d ha hb

theorem IsLca.of_parent_left {p c : κ} (h : IsLca parent p b c) (hp : parent a = some p)
    (hnot : ¬ Ancestor parent b a) : IsLca parent a b c :=
  (h.symm.of_parent_right hp hnot).symm

/-! ### Paths -/

/-- `l` lists the elements from `a` up to its ancestor `b`, without `b`. -/
inductive IsPath (parent : κ → Option κ) : κ → List κ → κ → Prop
  | nil (a : κ) : IsPath parent a [] a
  | cons {a p b : κ} {l : List κ} (hp : parent a = some p) (h : IsPath parent p l b) :
      IsPath parent a (a :: l) b

theorem IsPath.ancestor (h : IsPath parent a l b) : Ancestor parent a b := by
  induction h with
  | nil a => exact ancestor_refl a
  | cons hp _ ih => exact ih.of_parent hp

/-- The elements of a path are ancestors of its start, above its end. -/
theorem IsPath.mem (hg : Graded parent height V root) {x : κ} (h : IsPath parent a l b) (ha : a ∈ V)
    (hx : x ∈ l) :
    Ancestor parent a x ∧ height b < height x := by
  induction h with
  | nil a => cases hx
  | @cons a p b l hp hpath ih =>
    have hpV := hg.parent_mem ha hp
    rcases List.mem_cons.mp hx with rfl | hx
    · have hheight := hg.height_eq ha hp
      have hle := hg.height_le hpV hpath.ancestor
      exact ⟨ancestor_refl _, by omega⟩
    · obtain ⟨hanc, hlt⟩ := ih hpV hx
      exact ⟨hanc.of_parent hp, hlt⟩

/-- Above a lowest common ancestor, the way from one element avoids the ancestors of the other. -/
theorem IsLca.not_ancestor (hg : Graded parent height V root) {c x : κ} (h : IsLca parent a b c)
    (hpath : IsPath parent b l c) (hb : b ∈ V) (hx : x ∈ l) :
    ¬ Ancestor parent a x := by
  intro ha
  obtain ⟨hanc, hlt⟩ := hpath.mem hg hb hx
  have hle := hg.height_le (hg.mem_of_ancestor hb h.right) (h.lowest x ha hanc)
  omega

theorem isPath_append_singleton {x : κ} :
    IsPath parent a (l ++ [x]) b ↔ IsPath parent a l x ∧ parent x = some b := by
  induction l generalizing a with
  | nil =>
    constructor
    · intro h
      cases h with
      | cons hp h =>
        cases h with
        | nil => exact ⟨.nil _, hp⟩
    · rintro ⟨h, hp⟩
      cases h with
      | nil => exact .cons hp (.nil b)
  | cons y l ih =>
    constructor
    · intro h
      cases h with
      | cons hp h => exact ⟨.cons hp (ih.mp h).1, (ih.mp h).2⟩
    · rintro ⟨h, hx⟩
      cases h with
      | cons hp h => exact .cons hp (ih.mpr ⟨h, hx⟩)

/-! ### Some levels up -/

/-- The ancestor `n` levels up, if there are so many. -/
def climb (parent : κ → Option κ) : Nat → κ → Option κ
  | 0, a => some a
  | n + 1, a => (parent a).bind (climb parent n)

@[simp] theorem climb_zero (a : κ) : climb parent 0 a = some a := rfl

theorem climb_succ (n : Nat) (a : κ) : climb parent (n + 1) a = (parent a).bind (climb parent n) := rfl

theorem climb_add (m n : Nat) (a : κ) :
    climb parent (m + n) a = (climb parent m a).bind (climb parent n) := by
  induction m generalizing a with
  | zero => rw [Nat.zero_add, climb_zero, Option.bind_some]
  | succ m ih =>
    rw [Nat.succ_add, climb_succ, climb_succ, Option.bind_assoc]
    congr 1
    funext b
    exact ih b

namespace Graded

variable (hg : Graded parent height V root)

include hg

theorem climb_spec {n : Nat} (ha : a ∈ V) (h : climb parent n a = some b) :
    b ∈ V ∧ Ancestor parent a b ∧ height b + n = height a := by
  induction n generalizing a with
  | zero =>
    obtain rfl := Option.some.inj h
    exact ⟨ha, ancestor_refl a, rfl⟩
  | succ n ih =>
    rw [climb_succ, Option.bind_eq_some_iff] at h
    obtain ⟨p, hp, hb⟩ := h
    obtain ⟨hbV, hanc, hheight⟩ := ih (hg.parent_mem ha hp) hb
    refine ⟨hbV, .of_parent hp hanc, ?_⟩
    have := hg.height_eq ha hp
    omega

theorem climb_isSome_iff {n : Nat} (ha : a ∈ V) :
    (climb parent n a).isSome = true ↔ n ≤ height a := by
  constructor
  · intro h
    obtain ⟨b, hb⟩ := Option.isSome_iff_exists.mp h
    have := (hg.climb_spec ha hb).2.2
    omega
  · intro h
    induction n generalizing a with
    | zero => rfl
    | succ n ih =>
      rw [climb_succ]
      cases hp : parent a with
      | none =>
        have hroot : height a = 0 := by rw [hg.eq_root ha hp, hg.height_root]
        omega
      | some p =>
        have := hg.height_eq ha hp
        exact ih (hg.parent_mem ha hp) (by omega)

theorem ancestor_root (ha : a ∈ V) : Ancestor parent a root := by
  obtain ⟨b, hb⟩ := Option.isSome_iff_exists.mp ((hg.climb_isSome_iff ha).mpr (Nat.le_refl (height a)))
  obtain ⟨hbV, hanc, hheight⟩ := hg.climb_spec ha hb
  obtain rfl := hg.eq_root_of_height hbV (by omega)
  exact hanc

theorem climb_of_ancestor (ha : a ∈ V) (h : Ancestor parent a b) :
    climb parent (height a - height b) a = some b := by
  induction h using ReflTransGen.head_induction_on with
  | refl => rw [Nat.sub_self, climb_zero]
  | @head a p hp hb ih =>
    have hpV := hg.parent_mem ha hp
    have h1 := hg.height_eq ha hp
    have h2 := hg.height_le hpV hb
    rw [show height a - height b = (height p - height b) + 1 by omega, climb_succ, hp, Option.bind_some,
      ih hpV]

end Graded

/-! ### Pointers towards a tip -/

/-- `next` leads from each proper ancestor of `tip` to the next element on the way to `tip`, and is
undefined elsewhere. -/
def Follows (parent next : κ → Option κ) (tip : κ) : Prop :=
  ∀ b n, next b = some n ↔ parent n = some b ∧ Ancestor parent tip n

theorem Follows.ancestor_iff {tip : κ} (h : Follows parent next tip) (b : κ) :
    (next b ≠ none ∨ b = tip) ↔ Ancestor parent tip b := by
  constructor
  · rintro (hb | rfl)
    · obtain ⟨n, hn⟩ := Option.ne_none_iff_exists'.mp hb
      obtain ⟨hp, htip⟩ := (h b n).mp hn
      exact htip.trans (.of_parent hp (ancestor_refl b))
    · exact ancestor_refl b
  · intro hb
    by_cases heq : tip = b
    · exact .inr heq.symm
    · obtain ⟨n, hp, htip⟩ := hb.exists_child heq
      exact .inl (by rw [(h b n).mpr ⟨hp, htip⟩]; simp)

theorem Follows.next_unique {next' : κ → Option κ} {tip : κ} (h : Follows parent next tip)
    (h' : Follows parent next' tip) : next = next' := by
  funext b
  ext n
  rw [h b n, h' b n]

variable [DecidableEq κ]

/-- The tip moves to a child. -/
theorem Follows.extend {tip tip' : κ} (h : Follows parent next tip) (hg : Graded parent height V root)
    (hV : tip' ∈ V) (hp : parent tip' = some tip) :
    Follows parent (Function.update next tip (some tip')) tip' := by
  intro b n
  have hiff : Ancestor parent tip' n ↔ tip' = n ∨ Ancestor parent tip n := ParentTree.ancestor_iff hp
  by_cases hb : b = tip
  · subst hb
    rw [Function.update_self, hiff]
    constructor
    · intro hn
      obtain rfl := Option.some.inj hn
      exact ⟨hp, .inl rfl⟩
    · rintro ⟨hn, rfl | htip⟩
      · rfl
      · -- a child of the tip is not below it
        have hmem := hg.mem_of_ancestor (hg.parent_mem hV hp) htip
        exact absurd htip (hg.not_ancestor_parent hmem hn)
  · rw [Function.update_of_ne hb, h b n, hiff]
    constructor
    · rintro ⟨hn, htip⟩
      exact ⟨hn, .inr htip⟩
    · rintro ⟨hn, rfl | htip⟩
      · exact absurd (Option.some.inj (hn.symm.trans hp)) hb
      · exact ⟨hn, htip⟩

/-- The tip moves to its parent. -/
theorem Follows.retract {tip p : κ} (h : Follows parent next tip) (hg : Graded parent height V root)
    (hV : tip ∈ V) (hp : parent tip = some p) :
    Follows parent (Function.update next p none) p := by
  intro b n
  have hiff : Ancestor parent tip n ↔ tip = n ∨ Ancestor parent p n := ParentTree.ancestor_iff hp
  by_cases hb : b = p
  · subst hb
    rw [Function.update_self]
    constructor
    · intro hn; cases hn
    · rintro ⟨hn, htip⟩
      have hmem := hg.mem_of_ancestor (hg.parent_mem hV hp) htip
      exact absurd htip (hg.not_ancestor_parent hmem hn)
  · rw [Function.update_of_ne hb, h b n, hiff]
    constructor
    · rintro ⟨hn, rfl | htip⟩
      · exact absurd (Option.some.inj (hn.symm.trans hp)) hb
      · exact ⟨hn, htip⟩
    · rintro ⟨hn, htip⟩
      exact ⟨hn, .inr htip⟩

end Sphinx.ParentTree
