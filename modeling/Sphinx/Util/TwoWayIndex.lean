import Mathlib.Data.Finset.Card
import Mathlib.Data.List.AList
import Mathlib.Data.List.Sort

/-!
# Two-way indexes

Every owner `k` refers to the points of a list `f k`.  An index is the list of the pairs of a point and an
owner of it.

* `exact_update_iff`, `exact_update_append_iff`: when an index is still exact after what one owner refers
  to has changed, without or with the new pairs put into the index;
* `mem_owners`, `mem_sharers`: what an exact index tells about the owners of a point, and about the owners
  that share a point.

An index over a finite map: under `p` it has the set of the keys whose value refers to `p`, and it has
no empty sets.  A set is the list of its elements in ascending order.

* `insertKey`, `eraseKey`: one round of the loops that put a key into the index and take it out again;
* `Agrees`: the index has what it should have, which `Agrees.insert` and `Agrees.erase` keep.
-/

namespace Sphinx.PairIndex

variable {K P : Type}

/-- The index has each pair of a point and an owner once, and nothing else. -/
def Exact (f : K → List P) (index : List (P × K)) : Prop :=
  index.Nodup ∧ ∀ p k, (p, k) ∈ index ↔ p ∈ f k

/-- The owners of a point, in the order of the index. -/
def owners [DecidableEq P] (index : List (P × K)) (p : P) : List K := (index.filter fun e => e.1 = p).map Prod.snd

variable {f : K → List P} {index : List (P × K)}

/-! ### Changes -/

theorem nodup_append_iff (h : Exact f index) (k : K) (l : List P) :
    (index ++ l.map (·, k)).Nodup ↔ l.Nodup ∧ ∀ p ∈ l, p ∉ f k := by
  have hinj : Function.Injective fun p : P => (p, k) := fun p q hpq => congrArg Prod.fst hpq
  rw [List.nodup_append', List.nodup_map_iff hinj]
  constructor
  · rintro ⟨-, hl, hdisjoint⟩
    exact ⟨hl, fun p hp hf => hdisjoint ((h.2 p k).mpr hf) (List.mem_map_of_mem hp)⟩
  · rintro ⟨hl, hnew⟩
    refine ⟨h.1, hl, ?_⟩
    intro e he hmem
    obtain ⟨p, hp, rfl⟩ := List.mem_map.mp hmem
    exact hnew p hp ((h.2 p k).mp he)

section

variable [DecidableEq K]

theorem exact_update_iff (h : Exact f index) (k : K) (l : List P) :
    Exact (Function.update f k l) index ↔ ∀ p, p ∈ l ↔ p ∈ f k := by
  constructor
  · intro h' p
    have hnew := h'.2 p k
    rw [Function.update_self] at hnew
    rw [← hnew, h.2 p k]
  · intro hl
    refine ⟨h.1, fun p k' => ?_⟩
    by_cases hk : k' = k
    · subst hk
      rw [Function.update_self, hl p, h.2 p k']
    · rw [Function.update_of_ne hk, h.2 p k']

/-- The new pairs are put into the index: there must be no old ones. -/
theorem exact_update_append_iff (h : Exact f index) (k : K) (l : List P) :
    Exact (Function.update f k l) (index ++ l.map (·, k)) ↔ l.Nodup ∧ f k = [] := by
  constructor
  · rintro ⟨hnodup, hmem⟩
    obtain ⟨hl, hnew⟩ := (nodup_append_iff h k l).mp hnodup
    refine ⟨hl, List.eq_nil_iff_forall_not_mem.mpr fun p hp => ?_⟩
    have hpl := (hmem p k).mp (List.mem_append_left _ ((h.2 p k).mpr hp))
    rw [Function.update_self] at hpl
    exact hnew p hpl hp
  · rintro ⟨hl, hnil⟩
    refine ⟨(nodup_append_iff h k l).mpr ⟨hl, fun p _ => by rw [hnil]; exact List.not_mem_nil⟩, ?_⟩
    intro p k'
    rw [List.mem_append, List.mem_map, h.2 p k']
    by_cases hk : k' = k
    · subst hk
      simp [hnil]
    · rw [Function.update_of_ne hk, or_iff_left]
      rintro ⟨q, -, hq⟩
      exact hk (congrArg Prod.snd hq).symm

end

/-! ### Queries -/

variable [DecidableEq P]

theorem mem_owners_iff_mem {p : P} {k : K} : k ∈ owners index p ↔ (p, k) ∈ index := by
  unfold owners
  rw [List.mem_map]
  constructor
  · rintro ⟨e, he, rfl⟩
    obtain ⟨hmem, hp⟩ := List.mem_filter.mp he
    obtain rfl : e.1 = p := of_decide_eq_true hp
    exact hmem
  · intro h
    exact ⟨(p, k), List.mem_filter.mpr ⟨h, decide_eq_true rfl⟩, rfl⟩

theorem mem_owners (h : Exact f index) {p : P} {k : K} : k ∈ owners index p ↔ p ∈ f k :=
  mem_owners_iff_mem.trans (h.2 p k)

theorem nodup_owners (h : Exact f index) (p : P) : (owners index p).Nodup := by
  unfold owners
  refine List.Nodup.map_on ?_ (h.1.filter _)
  intro a ha b hb hab
  have hap : a.1 = p := of_decide_eq_true (List.mem_filter.mp ha).2
  have hbp : b.1 = p := of_decide_eq_true (List.mem_filter.mp hb).2
  exact Prod.ext (hap.trans hbp.symm) hab

theorem one_lt_length_owners [DecidableEq K] (h : Exact f index) (p : P) :
    1 < (owners index p).length ↔ ∃ k k', k ≠ k' ∧ p ∈ f k ∧ p ∈ f k' := by
  have hnodup := nodup_owners h p
  rw [← List.toFinset_card_of_nodup hnodup, Finset.one_lt_card]
  constructor
  · rintro ⟨k, hk, k', hk', hne⟩
    exact ⟨k, k', hne, (mem_owners h).mp (List.mem_toFinset.mp hk),
      (mem_owners h).mp (List.mem_toFinset.mp hk')⟩
  · rintro ⟨k, k', hne, hk, hk'⟩
    exact ⟨k, List.mem_toFinset.mpr ((mem_owners h).mpr hk), k',
      List.mem_toFinset.mpr ((mem_owners h).mpr hk'), hne⟩

end Sphinx.PairIndex

/-! ### Sets of keys by what the values refer to -/

namespace Sphinx.TwoWayIndex

variable {K V P : Type} [LinearOrder K] [DecidableEq P]
variable {s : List K}

def setInsert (k : K) (s : List K) : List K := if k ∈ s then s else s.orderedInsert (· ≤ ·) k

theorem mem_setInsert {k k' : K} : k' ∈ setInsert k s ↔ k' = k ∨ k' ∈ s := by
  unfold setInsert
  split
  · next hk =>
    constructor
    · exact .inr
    · rintro (rfl | hk')
      · exact hk
      · exact hk'
  · exact List.mem_orderedInsert _

theorem setInsert_ne_nil (k : K) (s : List K) : setInsert k s ≠ [] :=
  List.ne_nil_of_mem (mem_setInsert.mpr (.inl rfl))

theorem sorted_setInsert {k : K} (hs : s.SortedLT) : (setInsert k s).SortedLT := by
  unfold setInsert
  split
  · exact hs
  · next hk =>
    have hle : (s.orderedInsert (· ≤ ·) k).Pairwise (· ≤ ·) :=
      hs.sortedLE.pairwise.orderedInsert k s
    have hnodup : (s.orderedInsert (· ≤ ·) k).Nodup :=
      (List.perm_orderedInsert _ k s).nodup_iff.mpr (List.nodup_cons.mpr ⟨hk, hs.nodup⟩)
    exact hle.sortedLE.sortedLT_of_nodup hnodup

/-- `index[p].insert(k)`. -/
def insertKey (k : K) (index : AList fun _ : P => List K) (p : P) : AList fun _ : P => List K :=
  index.insert p (setInsert k ((index.lookup p).getD []))

/-- `index[p].erase(k)`, and the entry of `p` with it if nothing is left of it. -/
def eraseKey (k : K) (index : AList fun _ : P => List K) (p : P) : AList fun _ : P => List K :=
  match index.lookup p with
  | none => index
  | some s => if s.erase k = [] then index.erase p else index.insert p (s.erase k)

/-- Every set of the index is sorted and has an element. -/
def WellFormed (index : AList fun _ : P => List K) : Prop :=
  ∀ p s, index.lookup p = some s → s ≠ [] ∧ s.SortedLT

/-- The set of `p`, empty if the index has no entry. -/
def keysOf (index : AList fun _ : P => List K) (p : P) : List K := (index.lookup p).getD []

variable {index : AList fun _ : P => List K} {k k' : K} {p p' : P}

theorem WellFormed.sorted (h : WellFormed index) (p : P) : (keysOf index p).SortedLT := by
  unfold keysOf
  cases hp : index.lookup p with
  | none => exact List.Pairwise.nil.sortedLT
  | some s => exact (h p s hp).2

theorem WellFormed.lookup_iff (h : WellFormed index) :
    index.lookup p = some s ↔ s ≠ [] ∧ keysOf index p = s := by
  unfold keysOf
  cases hp : index.lookup p with
  | none =>
    constructor
    · intro heq
      cases heq
    · rintro ⟨hne, rfl⟩
      exact absurd rfl hne
  | some s' =>
    constructor
    · intro heq
      rw [← Option.some.inj heq]
      exact ⟨(h p s' hp).1, rfl⟩
    · rintro ⟨-, rfl⟩
      rfl

/-! ### One round -/

theorem mem_keysOf_insertKey : k' ∈ keysOf (insertKey k index p) p' ↔
    k' ∈ keysOf index p' ∨ (k' = k ∧ p' = p) := by
  unfold insertKey
  by_cases hp : p' = p
  · subst hp
    rw [keysOf, AList.lookup_insert, Option.getD_some, mem_setInsert, or_comm]
    simp [keysOf]
  · rw [keysOf, AList.lookup_insert_ne hp]
    simp [keysOf, hp]

theorem WellFormed.insertKey (h : WellFormed index) (k : K) (p : P) :
    WellFormed (insertKey k index p) := by
  intro p' s hs
  by_cases hp : p' = p
  · subst hp
    rw [TwoWayIndex.insertKey, AList.lookup_insert, Option.some.injEq] at hs
    rw [← hs]
    exact ⟨setInsert_ne_nil _ _, sorted_setInsert (h.sorted p')⟩
  · rw [TwoWayIndex.insertKey, AList.lookup_insert_ne hp] at hs
    exact h p' s hs

theorem mem_keysOf_eraseKey (h : WellFormed index) : k' ∈ keysOf (eraseKey k index p) p' ↔
    k' ∈ keysOf index p' ∧ ¬ (k' = k ∧ p' = p) := by
  have herase : k' ∈ (keysOf index p).erase k ↔ k' ∈ keysOf index p ∧ k' ≠ k := by
    rw [(h.sorted p).nodup.mem_erase_iff, and_comm]
  by_cases hp : p' = p
  · subst hp
    have hkeys : keysOf (eraseKey k index p') p' = (keysOf index p').erase k := by
      unfold eraseKey
      cases hs : index.lookup p' with
      | none => simp [keysOf, hs]
      | some s =>
        simp only
        split
        · next hnil => simp [keysOf, hs, hnil]
        · simp [keysOf, hs]
    rw [hkeys, herase]
    simp
  · have hkeys : keysOf (eraseKey k index p) p' = keysOf index p' := by
      unfold eraseKey keysOf
      split
      · rfl
      · split
        · rw [AList.lookup_erase_ne hp]
        · rw [AList.lookup_insert_ne hp]
    rw [hkeys]
    simp [hp]

theorem WellFormed.eraseKey (h : WellFormed index) (k : K) (p : P) :
    WellFormed (eraseKey k index p) := by
  intro p' s' hs'
  unfold TwoWayIndex.eraseKey at hs'
  cases hs : index.lookup p with
  | none =>
    rw [hs] at hs'
    exact h p' s' hs'
  | some s =>
    rw [hs] at hs'
    by_cases hp : p' = p
    · subst hp
      simp only at hs'
      split at hs'
      · simp at hs'
      · next hne =>
        rw [AList.lookup_insert, Option.some.injEq] at hs'
        rw [← hs']
        exact ⟨hne, ((h p' s hs).2.pairwise.sublist List.erase_sublist).sortedLT⟩
    · simp only at hs'
      split at hs'
      · rw [AList.lookup_erase_ne hp] at hs'
        exact h p' s' hs'
      · rw [AList.lookup_insert_ne hp] at hs'
        exact h p' s' hs'

/-! ### The loops -/

theorem wellFormed_foldl_insertKey (k : K) (ps : List P) :
    ∀ {index : AList fun _ : P => List K}, WellFormed index →
      WellFormed (ps.foldl (insertKey k) index) ∧ ∀ k' p', k' ∈ keysOf (ps.foldl (insertKey k) index) p' ↔
        k' ∈ keysOf index p' ∨ (k' = k ∧ p' ∈ ps) := by
  induction ps with
  | nil => exact fun h => ⟨h, fun k' p' => by simp⟩
  | cons p ps ih =>
    intro index h
    obtain ⟨hwell, hmem⟩ := ih (h.insertKey k p)
    refine ⟨hwell, fun k' p' => ?_⟩
    rw [List.foldl_cons, hmem, mem_keysOf_insertKey, or_assoc, ← and_or_left, List.mem_cons]

theorem wellFormed_foldl_eraseKey (k : K) (ps : List P) :
    ∀ {index : AList fun _ : P => List K}, WellFormed index →
      WellFormed (ps.foldl (eraseKey k) index) ∧ ∀ k' p', k' ∈ keysOf (ps.foldl (eraseKey k) index) p' ↔
        k' ∈ keysOf index p' ∧ ¬ (k' = k ∧ p' ∈ ps) := by
  induction ps with
  | nil => exact fun h => ⟨h, fun k' p' => by simp⟩
  | cons p ps ih =>
    intro index h
    obtain ⟨hwell, hmem⟩ := ih (h.eraseKey k p)
    refine ⟨hwell, fun k' p' => ?_⟩
    rw [List.foldl_cons, hmem, mem_keysOf_eraseKey h, and_assoc, ← not_or, ← and_or_left,
      List.mem_cons]

/-! ### The index of a map -/

/-- Under every `p` the index has the keys of the values that refer to `p`. -/
structure Agrees (refs : V → List P) (items : AList fun _ : K => V)
    (index : AList fun _ : P => List K) : Prop where
  wellFormed : WellFormed index
  mem_iff : ∀ p k, k ∈ keysOf index p ↔ ∃ v, items.lookup k = some v ∧ p ∈ refs v

variable {refs : V → List P} {items : AList fun _ : K => V} {v : V}

theorem agrees_empty (refs : V → List P) : Agrees refs (∅ : AList fun _ : K => V) ∅ := by
  refine ⟨fun p s hs => ?_, fun p k => ?_⟩
  · cases hs
  · simp [keysOf]

/-- What is under `p`: nothing, or the non-empty set of the keys that refer to it. -/
theorem Agrees.lookup_iff (h : Agrees refs items index) :
    index.lookup p = some s ↔ s ≠ [] ∧ s.SortedLT ∧
      ∀ k, k ∈ s ↔ ∃ v, items.lookup k = some v ∧ p ∈ refs v := by
  rw [h.wellFormed.lookup_iff, and_congr_right_iff]
  intro _
  constructor
  · rintro rfl
    exact ⟨h.wellFormed.sorted p, h.mem_iff p⟩
  · rintro ⟨hsorted, hmem⟩
    refine (h.wellFormed.sorted p).eq_of_mem_iff hsorted fun k => ?_
    rw [h.mem_iff, hmem]

theorem Agrees.insert (h : Agrees refs items index) (hk : items.lookup k = none) (v : V) :
    Agrees refs (items.insert k v) ((refs v).foldl (insertKey k) index) := by
  obtain ⟨hwell, hmem⟩ := wellFormed_foldl_insertKey k (refs v) h.wellFormed
  refine ⟨hwell, fun p k' => ?_⟩
  rw [hmem, h.mem_iff]
  by_cases hk' : k' = k
  · subst hk'
    simp [hk]
  · simp [hk', AList.lookup_insert_ne hk']

theorem Agrees.erase (h : Agrees refs items index) (hk : items.lookup k = some v) :
    Agrees refs (items.erase k) ((refs v).foldl (eraseKey k) index) := by
  obtain ⟨hwell, hmem⟩ := wellFormed_foldl_eraseKey k (refs v) h.wellFormed
  refine ⟨hwell, fun p k' => ?_⟩
  rw [hmem, h.mem_iff]
  by_cases hk' : k' = k
  · subst hk'
    simp [hk]
  · simp [hk', AList.lookup_erase_ne hk']

end Sphinx.TwoWayIndex
