import Mathlib.Data.List.Sort

/-!
# Keeping the best

A receiver that keeps one element: a new one replaces it only if its score is strictly better, so of
elements with equal scores the first to come stays.

* `KeptBest`: what is kept is best among what came, and `KeptBest.better` says that this stays so;
* `KeptBest.map_eq`: if the best elements agree in something, so do two receivers of the same elements;
* `keptBest_foldl`, `foldl_cons_best`: a whole list, in whatever order and however often the elements
  come;
* `get_foldl`: a receiver that does so for each key.

Lists of pairs in descending order of the first component, the key.  The order of pairs with equal keys
is open.

* `eq_of_sorted`: if no key occurs twice, there is one sorted list;
* `stable`: the sort that leaves pairs with equal keys in their order (`pair_sublist_stable`);
* `findIdx?_getElem`, `findIdx?_lt_of_sublist`: the position of the pair with a given second component.
-/

namespace Sphinx.KeepBest

variable {α β : Type} [LinearOrder β] (score : α → β)

/-- What is kept after `a` came. -/
def better : Option α → α → Option α
  | none, a => some a
  | some b, a => if score b < score a then some a else some b

/-- `m` is one of the elements of `S`, and none of them is better. -/
def Best (S : α → Prop) (m : α) : Prop := S m ∧ ∀ a, S a → score a ≤ score m

/-- A best element is kept, if there is any element. -/
def KeptBest (S : α → Prop) : Option α → Prop
  | none => ∀ a, ¬S a
  | some m => Best score S m

variable {score} {S S' : α → Prop} {kept kept' : Option α} {a m : α}

theorem better_some (b a : α) : better score (some b) a = if score b < score a then some a else some b :=
  rfl

theorem Best.congr (hS : ∀ a, S a ↔ S' a) (h : Best score S m) : Best score S' m :=
  ⟨(hS m).mp h.1, fun a ha => h.2 a ((hS a).mpr ha)⟩

theorem KeptBest.congr (hS : ∀ a, S a ↔ S' a) (h : KeptBest score S kept) : KeptBest score S' kept := by
  cases kept with
  | none => exact fun a ha => h a ((hS a).mpr ha)
  | some m => exact Best.congr hS h

/-- **One more element.** -/
theorem KeptBest.better (h : KeptBest score S kept) (a : α) :
    KeptBest score (fun x => S x ∨ x = a) (better score kept a) := by
  cases kept with
  | none => exact ⟨.inr rfl, fun x hx => hx.elim (fun hS => absurd hS (h x)) fun heq => heq ▸ le_rfl⟩
  | some b =>
    rw [better_some]
    split_ifs with hlt
    · exact ⟨.inr rfl, fun x hx => hx.elim (fun hS => (h.2 x hS).trans hlt.le) fun heq => heq ▸ le_rfl⟩
    · exact ⟨.inl h.1, fun x hx => hx.elim (h.2 x) fun heq => heq ▸ not_lt.mp hlt⟩

/-- An element that is not looked at does no harm if another one is as good. -/
theorem KeptBest.skip (h : KeptBest score S kept) {b : α} (hb : S b) (hle : score a ≤ score b) :
    KeptBest score (fun x => S x ∨ x = a) kept := by
  cases kept with
  | none => exact absurd hb (h b)
  | some m => exact ⟨.inl h.1, fun x hx => hx.elim (h.2 x) fun heq => heq ▸ hle.trans (h.2 b hb)⟩

theorem KeptBest.exists (h : KeptBest score S kept) (ha : S a) : ∃ m, kept = some m ∧ Best score S m := by
  cases kept with
  | none => exact absurd ha (h a)
  | some m => exact ⟨m, rfl, h⟩

/-- **Agreement.**  If all best elements have the same `f`, two receivers of the same elements keep
elements with the same `f`. -/
theorem KeptBest.map_eq {γ : Type} {f : α → γ}
    (hunique : ∀ m m', Best score S m → Best score S m' → f m = f m')
    (h : KeptBest score S kept) (h' : KeptBest score S kept') : kept.map f = kept'.map f := by
  cases kept with
  | none =>
    cases kept' with
    | none => rfl
    | some m' => exact absurd h'.1 (h m')
  | some m =>
    obtain ⟨m', rfl, hm'⟩ := h'.exists h.1
    rw [Option.map_some, Option.map_some, hunique m m' h hm']

/-! ### Lists -/

theorem keptBest_foldl : ∀ (l : List α) {S : α → Prop} {kept : Option α}, KeptBest score S kept →
    KeptBest score (fun x => S x ∨ x ∈ l) (l.foldl (KeepBest.better score) kept) := by
  intro l
  induction l with
  | nil => exact fun h => h.congr fun x => by simp
  | cons a l ih => exact fun h => (ih (h.better a)).congr fun x => by simp [or_assoc]

/-- A receiver that starts with nothing. -/
theorem keptBest_foldl_none {l : List α} (hl : ∀ a, a ∈ l ↔ S a) :
    KeptBest score S (l.foldl (KeepBest.better score) none) := by
  have hnone : KeptBest score (fun _ => False) none := fun _ h => h
  exact (keptBest_foldl l hnone).congr fun x => by rw [false_or, hl x]

theorem foldl_cons_best {l : List α} (hl : ∀ a, a ∈ l ↔ S a) (hm : Best score S m) :
    (m :: l).foldl (KeepBest.better score) none = some m := by
  have hstay : ∀ l' : List α, (∀ a ∈ l', S a) → l'.foldl (KeepBest.better score) (some m) = some m := by
    intro l'
    induction l' with
    | nil => exact fun _ => rfl
    | cons a l' ih =>
      intro hl'
      rw [List.foldl_cons, better_some, if_neg (not_lt.mpr (hm.2 a (hl' a List.mem_cons_self)))]
      exact ih fun a' ha' => hl' a' (List.mem_cons_of_mem _ ha')
  exact hstay l fun a ha => (hl a).mp ha

/-- **One slot for each key.**  If a step offers each element to the slot of its key, every slot ends
with what its own elements leave there. -/
theorem get_foldl {σ κ : Type} [DecidableEq κ] {key : α → κ} (get : σ → κ → Option α)
    {put : σ → α → σ}
    (k : κ) : ∀ (l : List α),
    (∀ a ∈ l, ∀ s,
      get (put s a) k = if key a = k then KeepBest.better score (get s k) a else get s k) →
    ∀ (s : σ),
      get (l.foldl put s) k = (l.filter fun a => key a = k).foldl (KeepBest.better score) (get s k) := by
  intro l
  induction l with
  | nil => exact fun _ _ => rfl
  | cons a l ih =>
    intro hput s
    rw [List.foldl_cons, ih fun a' ha' => hput a' (List.mem_cons_of_mem _ ha'), hput a List.mem_cons_self]
    by_cases hk : key a = k
    · rw [if_pos hk, List.filter_cons_of_pos (by simpa using hk), List.foldl_cons]
    · rw [if_neg hk, List.filter_cons_of_neg (by simpa using hk)]

end Sphinx.KeepBest

/-! ### Sorting by a key -/

namespace Sphinx.SortByKey

variable {α : Type}
variable {l : List (Nat × α)}

/-- Descending keys. -/
def Descending (l : List (Nat × α)) : Prop := l.Pairwise fun a b => b.1 ≤ a.1

theorem eq_of_sorted {l' : List (Nat × α)} (hperm : l.Perm l') (hl : Descending l) (hl' : Descending l')
    (hinj : ∀ a ∈ l, ∀ b ∈ l, a.1 = b.1 → a = b) : l = l' := by
  refine List.Perm.eq_of_pairwise (fun a b ha hb hba hab => ?_) hl hl' hperm
  exact hinj a ha b (hperm.mem_iff.mpr hb) (Nat.le_antisymm hab hba)

/-! ### The stable sort -/

def stable (l : List (Nat × α)) : List (Nat × α) := l.insertionSort fun a b => b.1 ≤ a.1

theorem stable_perm (l : List (Nat × α)) : (stable l).Perm l := List.perm_insertionSort _ l

theorem descending_stable (l : List (Nat × α)) : Descending (stable l) := by
  have : Std.Total fun a b : Nat × α => b.1 ≤ a.1 := ⟨fun a b => le_total b.1 a.1⟩
  have : IsTrans (Nat × α) fun a b => b.1 ≤ a.1 := ⟨fun a b c hab hbc => hbc.trans hab⟩
  exact List.pairwise_insertionSort _ l

theorem pair_sublist_stable {a b : Nat × α} (hab : a.1 = b.1) (h : [a, b].Sublist l) :
    [a, b].Sublist (stable l) :=
  List.pair_sublist_insertionSort hab.ge h

/-! ### Positions -/

variable [DecidableEq α]

theorem findIdx?_getElem (hnodup : (l.map Prod.snd).Nodup) {i : Nat} (hi : i < l.length) :
    (l.findIdx? fun s => s.2 = l[i].2) = some i := by
  refine List.findIdx?_eq_some_iff_getElem.mpr ⟨hi, decide_eq_true rfl, fun j hj heq => ?_⟩
  have hjl : j < l.length := hj.trans hi
  have heq : l[j] = l[i] := List.inj_on_of_nodup_map hnodup (List.getElem_mem hjl) (List.getElem_mem hi)
    (of_decide_eq_true heq)
  exact absurd ((hnodup.of_map _).getElem_inj_iff.mp heq) hj.ne

theorem exists_findIdx? (hnodup : (l.map Prod.snd).Nodup) {a : Nat × α} (ha : a ∈ l) :
    ∃ i, (l.findIdx? fun s => s.2 = a.2) = some i ∧ l[i]? = some a := by
  obtain ⟨i, hi, rfl⟩ := List.getElem_of_mem ha
  exact ⟨i, findIdx?_getElem hnodup hi, List.getElem?_eq_getElem hi⟩

theorem findIdx?_lt_of_sublist (hnodup : (l.map Prod.snd).Nodup) {a b : Nat × α} (h : [a, b].Sublist l) :
    ∃ i j, (l.findIdx? fun s => s.2 = a.2) = some i ∧
      (l.findIdx? fun s => s.2 = b.2) = some j ∧ i < j := by
  induction l with
  | nil => cases h
  | cons x l ih =>
    rw [List.map_cons, List.nodup_cons] at hnodup
    have hne : ∀ {y : Nat × α}, y ∈ l → x.2 ≠ y.2 := fun hy heq =>
      hnodup.1 (heq ▸ List.mem_map_of_mem hy)
    have hcons : ∀ {y : Nat × α}, y ∈ l → ((x :: l).findIdx? fun s => s.2 = y.2) =
        (l.findIdx? fun s => s.2 = y.2).map fun i => i + 1 := fun hy => by
      rw [List.findIdx?_cons, if_neg (by simpa using hne hy)]
    cases h with
    | cons _ h =>
      obtain ⟨i, j, hi, hj, hlt⟩ := ih hnodup.2 h
      have ha : a ∈ l := h.subset List.mem_cons_self
      have hb : b ∈ l := h.subset (List.mem_cons_of_mem _ List.mem_cons_self)
      exact ⟨i + 1, j + 1, by rw [hcons ha, hi, Option.map_some], by rw [hcons hb, hj, Option.map_some],
        Nat.succ_lt_succ hlt⟩
    | cons_cons _ h =>
      have hb : b ∈ l := h.subset List.mem_cons_self
      obtain ⟨j, hj, -⟩ := exists_findIdx? hnodup.2 hb
      refine ⟨0, j + 1, ?_, by rw [hcons hb, hj, Option.map_some], Nat.succ_pos j⟩
      rw [List.findIdx?_cons, if_pos (by simp)]

end Sphinx.SortByKey
