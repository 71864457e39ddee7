import Sphinx.Util.Loop

/-!
# Lists with iterators

A `std::list` whose iterators are kept elsewhere.  `StdList` gives every element a number of its own,
which stands for the iterator: it names the element until the element is erased.

`Points key lists index` says that an index of iterators into several lists is right: under a key it has
the list and the iterator of the element with this key, and every element of a list is in the index.

* `Points.pushBack`, `Points.erase`, `Points.addList`, `Points.dropList`: the operations that keep it;
* `Points.iterator`: an iterator of the index can be used.
-/

namespace Sphinx

open Function (update update_of_ne update_self)

structure StdList (α : Type) where
  nodes : List (Nat × α)
  /-- The number of the next element. -/
  next : Nat
  lt_next : ∀ e ∈ nodes, e.1 < next
  nodup : (nodes.map Prod.fst).Nodup

namespace StdList

variable {α : Type}

def empty : StdList α := ⟨[], 0, by simp, by simp⟩

def size (l : StdList α) : Nat := l.nodes.length

def front (l : StdList α) : Option α := l.nodes.head?.map Prod.snd

/-- `insert(end(), a)`, with the iterator `l.next`. -/
def pushBack (l : StdList α) (a : α) : StdList α where
  nodes := l.nodes ++ [(l.next, a)]
  next := l.next + 1
  lt_next := by
    intro e he
    rcases List.mem_append.mp he with he | he
    · exact Nat.lt_succ_of_lt (l.lt_next e he)
    · rw [List.mem_singleton.mp he]
      exact Nat.lt_succ_self _
  nodup := by
    rw [List.map_append, List.nodup_append]
    refine ⟨l.nodup, by simp, ?_⟩
    rintro i hi j hj rfl
    obtain ⟨e, he, rfl⟩ := List.mem_map.mp hi
    have hlt := l.lt_next e he
    rw [List.map_singleton, List.mem_singleton] at hj
    omega

/-- `erase(it)`, undefined if there is no such element. -/
def erase (l : StdList α) (it : Nat) : Option (StdList α) :=
  if it ∈ l.nodes.map Prod.fst then
    some
      { nodes := l.nodes.filter fun e => e.1 ≠ it
        next := l.next
        lt_next := fun e he => l.lt_next e (List.mem_of_mem_filter he)
        nodup := l.nodup.sublist (List.filter_sublist.map _) }
  else none

@[simp] theorem size_empty : (empty : StdList α).size = 0 := rfl

@[simp] theorem size_pushBack (l : StdList α) (a : α) : (l.pushBack a).size = l.size + 1 := by
  simp [size, pushBack]

theorem mem_pushBack {l : StdList α} {a : α} {e : Nat × α} :
    e ∈ (l.pushBack a).nodes ↔ e ∈ l.nodes ∨ e = (l.next, a) := by
  simp [pushBack]

theorem eq_of_mem {l : StdList α} {it : Nat} {a b : α} (ha : (it, a) ∈ l.nodes) (hb : (it, b) ∈ l.nodes) :
    a = b :=
  congrArg Prod.snd (List.inj_on_of_nodup_map l.nodup ha hb rfl)

/-- An iterator that is still good. -/
theorem erase_of_mem {l : StdList α} {it : Nat} {a : α} (h : (it, a) ∈ l.nodes) :
    ∃ l', l.erase it = some l' ∧ l'.size + 1 = l.size ∧
      ∀ e, e ∈ l'.nodes ↔ e ∈ l.nodes ∧ e.1 ≠ it := by
  have hmem : it ∈ l.nodes.map Prod.fst := List.mem_map_of_mem h
  refine ⟨_, if_pos hmem, ?_, fun e => by simp⟩
  -- exactly one element has this iterator
  have hone : (l.nodes.map Prod.fst).count it = 1 := List.count_eq_one_of_mem l.nodup hmem
  rw [List.count, List.countP_map] at hone
  have hsplit := List.length_eq_countP_add_countP (· == it) (l := l.nodes.map Prod.fst)
  rw [List.countP_map, List.countP_map, List.length_map] at hsplit
  have hrest : (l.nodes.filter fun e => e.1 ≠ it).length =
      l.nodes.countP ((fun i => decide ¬ (i == it) = true) ∘ Prod.fst) := by
    rw [List.countP_eq_length_filter]
    exact congrArg List.length (List.filter_congr fun e _ => by simp)
  simp only [size]
  omega

theorem exists_front {l : StdList α} (h : l.size ≠ 0) :
    ∃ it a, (it, a) ∈ l.nodes ∧ l.front = some a := by
  unfold size at h
  unfold front
  cases hnodes : l.nodes with
  | nil => simp [hnodes] at h
  | cons e nodes => exact ⟨e.1, e.2, List.mem_cons_self, rfl⟩

end StdList

/-! ### An index of iterators -/

namespace StdList

variable {K N α : Type} [DecidableEq K]

/-- Under every key the index has the list and the iterator of the element with this key. -/
def Points (key : α → K) (lists : N → Option (StdList α)) (index : AList fun _ : K => N × Nat) : Prop :=
  ∀ k n it, index.lookup k = some (n, it) ↔
    ∃ l a, lists n = some l ∧ (it, a) ∈ l.nodes ∧ key a = k

variable {key : α → K} {lists : N → Option (StdList α)} {index : AList fun _ : K => N × Nat} {k : K}
  {n : N} {it : Nat} {l : StdList α} {a : α}

theorem points_empty (key : α → K) : Points key (fun _ : N => none) ∅ := by
  intro k n it
  constructor
  · intro h
    cases h
  · rintro ⟨l, a, h, -⟩
    cases h

/-- The iterator can be used. -/
theorem Points.iterator (h : Points key lists index) (hk : index.lookup k = some (n, it)) :
    ∃ l a, lists n = some l ∧ (it, a) ∈ l.nodes ∧ key a = k := (h k n it).mp hk

theorem Points.lookup (h : Points key lists index) (hl : lists n = some l) (ha : (it, a) ∈ l.nodes) :
    index.lookup (key a) = some (n, it) := (h _ n it).mpr ⟨l, a, hl, ha, rfl⟩

variable [DecidableEq N]

theorem Points.pushBack (h : Points key lists index) (hl : lists n = some l)
    (hnone : index.lookup (key a) = none) :
    Points key (update lists n (some (l.pushBack a))) (index.insert (key a) (n, l.next)) := by
  intro k' n' it'
  by_cases hk : k' = key a
  · subst hk
    rw [AList.lookup_insert, Option.some.injEq]
    constructor
    · intro heq
      cases heq
      exact ⟨_, a, update_self _ _ _, mem_pushBack.mpr (.inr rfl), rfl⟩
    · rintro ⟨l', b, hl', hb, hkey⟩
      -- the key has not been there before
      have hnew : ∀ l'' : StdList α, lists n' = some l'' → (it', b) ∉ l''.nodes := by
        intro l'' hl'' hb''
        have hold := h.lookup hl'' hb''
        rw [hkey, hnone] at hold
        cases hold
      by_cases hn : n' = n
      · subst hn
        rw [update_self, Option.some.injEq] at hl'
        rw [← hl'] at hb
        rcases mem_pushBack.mp hb with hb | hb
        · exact absurd hb (hnew l hl)
        · rw [Prod.mk.injEq] at hb
          rw [hb.1]
      · rw [update_of_ne hn] at hl'
        exact absurd hb (hnew l' hl')
  · rw [AList.lookup_insert_ne hk, h k' n' it']
    by_cases hn : n' = n
    · subst hn
      rw [update_self]
      constructor
      · rintro ⟨l', b, hl', hb, hkey⟩
        obtain rfl : l = l' := Option.some.inj (hl.symm.trans hl')
        exact ⟨_, b, rfl, mem_pushBack.mpr (.inl hb), hkey⟩
      · rintro ⟨l', b, hl', hb, hkey⟩
        rw [← Option.some.inj hl'] at hb
        rcases mem_pushBack.mp hb with hb | hb
        · exact ⟨l, b, hl, hb, hkey⟩
        · rw [Prod.mk.injEq] at hb
          exact absurd (hkey.symm.trans (congrArg key hb.2)) hk
    · rw [update_of_ne hn]

theorem Points.erase (h : Points key lists index) (hk : index.lookup k = some (n, it))
    (hl : lists n = some l) :
    ∃ l', l.erase it = some l' ∧ l'.size + 1 = l.size ∧
      Points key (update lists n (some l')) (index.erase k) := by
  obtain ⟨l₀, a, hl₀, ha, hkey⟩ := h.iterator hk
  obtain rfl : l = l₀ := Option.some.inj (hl.symm.trans hl₀)
  obtain ⟨l', herase, hsize, hmem⟩ := erase_of_mem ha
  refine ⟨l', herase, hsize, fun k' n' it' => ?_⟩
  have hlists : (∃ l'' b, update lists n (some l') n' = some l'' ∧ (it', b) ∈ l''.nodes ∧
      key b = k') ↔ index.lookup k' = some (n', it') ∧ ¬ (n' = n ∧ it' = it) := by
    rw [h k' n' it']
    by_cases hn : n' = n
    · subst hn
      rw [update_self]
      constructor
      · rintro ⟨l'', b, hl'', hb, hkey'⟩
        rw [← Option.some.inj hl'', hmem] at hb
        exact ⟨⟨l, b, hl, hb.1, hkey'⟩, fun heq => hb.2 heq.2⟩
      · rintro ⟨⟨l'', b, hl'', hb, hkey'⟩, hne⟩
        rw [← Option.some.inj (hl.symm.trans hl'')] at hb
        exact ⟨l', b, rfl, (hmem _).mpr ⟨hb, fun heq => hne ⟨rfl, heq⟩⟩, hkey'⟩
    · rw [update_of_ne hn]
      simp [hn]
  rw [hlists]
  by_cases hkk : k' = k
  · subst hkk
    rw [AList.lookup_erase, hk]
    constructor
    · intro heq
      cases heq
    · rintro ⟨heq, hne⟩
      cases heq
      exact absurd ⟨rfl, rfl⟩ hne
  · rw [AList.lookup_erase_ne hkk]
    refine ⟨fun hk' => ⟨hk', ?_⟩, fun hk' => hk'.1⟩
    rintro ⟨rfl, rfl⟩
    -- one iterator does not stand for two keys
    obtain ⟨l₁, b, hl₁, hb, hkey'⟩ := h.iterator hk'
    obtain rfl : l = l₁ := Option.some.inj (hl.symm.trans hl₁)
    rw [eq_of_mem hb ha, hkey] at hkey'
    exact hkk hkey'.symm

/-- A new list. -/
theorem Points.addList (h : Points key lists index) (hl : lists n = none) :
    Points key (update lists n (some empty)) index := by
  intro k' n' it'
  rw [h k' n' it']
  by_cases hn : n' = n
  · subst hn
    rw [update_self]
    constructor
    · rintro ⟨l', b, hl', -⟩
      rw [hl] at hl'
      cases hl'
    · rintro ⟨l', b, hl', hb, -⟩
      rw [← Option.some.inj hl'] at hb
      cases hb
  · rw [update_of_ne hn]

/-- A list is dropped, and its elements are taken out of the index. -/
theorem Points.dropList (h : Points key lists index) (hl : lists n = some l) :
    Points key (update lists n none)
      ((l.nodes.map fun e => key e.2).foldl (fun m k => m.erase k) index) := by
  intro k' n' it'
  rw [MapLoop.lookup_foldl_erase]
  by_cases hn : n' = n
  · subst hn
    rw [update_self]
    constructor
    · intro hk
      split_ifs at hk with hmem
      obtain ⟨l', a, hl', ha, rfl⟩ := h.iterator hk
      rw [← Option.some.inj (hl.symm.trans hl')] at ha
      exact absurd (List.mem_map_of_mem (f := fun e : Nat × α => key e.2) ha) hmem
    · rintro ⟨l', b, hl', -⟩
      cases hl'
  · rw [update_of_ne hn, ← h k' n' it']
    split_ifs with hmem
    · obtain ⟨e, he, rfl⟩ := List.mem_map.mp hmem
      rw [h.lookup hl he]
      constructor
      · intro heq
        cases heq
      · intro heq
        cases heq
        exact absurd rfl hn
    · rfl

end StdList

end Sphinx
