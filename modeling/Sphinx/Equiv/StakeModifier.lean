import Sphinx.Equiv.BlockIndex
import Sphinx.Stake
import Sphinx.Util.Loop

/-!
# The selection of the stake modifier

A round stops early only once it has found a block, so as long as a candidate has not been selected every round
finds a new one.

* `selectLoop_spec`: what one scan of the candidates finds;
* `SelectionInv`: the blocks selected after some of the rounds;
* `computeNextStakeModifier_spec`: the modifier is always computed, from as many different candidates as there are,
  64 at most.
-/

namespace Sphinx

variable {hashSelection : Uint256 → Nat → Uint256} {m m' : BlockMap} {genesis : Uint256} {e : CBlockIndex}

/-! ### The ancestors of a block -/

/-- The ancestors are entries of the index under their hashes, each below the one before, down to the genesis
block. -/
structure AncestorList (m : BlockMap) (genesis : Uint256) (e : CBlockIndex) (as : List CBlockIndex) : Prop where
  mem : ∀ a ∈ as, m a.hashBlock = some a ∧ a.nHeight ≤ e.nHeight
  descending : as.Pairwise fun a b => b.nHeight < a.nHeight
  genesis_mem : ∃ g ∈ as, m genesis = some g

theorem ancestorList_pprevChain (ht : IndexTree m genesis) : ∀ (n : Nat) {e : CBlockIndex}, m e.hashBlock = some e →
    e.nHeight = n → AncestorList m genesis e (pprevChain m (n + 1) (some e.hashBlock)) := by
  intro n
  induction n with
  | zero =>
    intro e he hn
    have hchain : pprevChain m 1 (some e.hashBlock) = [e] := by
      simp only [pprevChain, he]
    have hgenesis : e.hashBlock = genesis := by
      by_contra hne
      obtain ⟨prev, entry, -, -, hheight⟩ := ht.prev he hne
      omega
    rw [hchain]
    refine ⟨fun a ha => ?_, List.pairwise_singleton _ _, e, List.mem_singleton_self e, hgenesis ▸ he⟩
    rw [List.mem_singleton.mp ha]
    exact ⟨he, le_rfl⟩
  | succ n ih =>
    intro e he hn
    obtain ⟨prev, -, hprev, hparent, hheight⟩ := ht.exists_pprev he (by omega)
    have hpprev : e.pprev = some prev.hashBlock := by
      rw [← parentOf_eq he]
      exact hparent
    have hchain : pprevChain m (n + 1 + 1) (some e.hashBlock) = e :: pprevChain m (n + 1) (some prev.hashBlock) := by
      conv_lhs => unfold pprevChain
      simp only [he, hpprev]
    obtain ⟨hmem, hdesc, g, hg, hgen⟩ := ih hprev (by omega)
    rw [hchain]
    refine ⟨fun a ha => ?_, List.pairwise_cons.mpr ⟨fun a ha => ?_, hdesc⟩, g, List.mem_cons_of_mem _ hg, hgen⟩
    · rcases List.mem_cons.mp ha with rfl | ha
      · exact ⟨he, le_rfl⟩
      · have := hmem a ha
        exact ⟨this.1, by omega⟩
    · have := (hmem a ha).2
      omega

theorem ancestorList (ht : IndexTree m genesis) (he : m e.hashBlock = some e) :
    AncestorList m genesis e (ancestors m e) :=
  ancestorList_pprevChain ht e.nHeight he rfl

theorem AncestorList.nodup_hash {as : List CBlockIndex} (h : AncestorList m genesis e as) :
    (as.map CBlockIndex.hashBlock).Nodup := by
  rw [List.Nodup, List.pairwise_map]
  refine h.descending.imp_of_mem fun {a b} ha hb hlt heq => ?_
  have hsame := (h.mem a ha).1
  rw [heq, (h.mem b hb).1, Option.some.injEq] at hsame
  rw [hsame] at hlt
  exact lt_irrefl _ hlt

/-- The list of the ancestors depends on their own entries alone. -/
theorem pprevChain_congr (ht : IndexTree m genesis) : ∀ (n : Nat) {e : CBlockIndex}, m e.hashBlock = some e →
    e.nHeight = n → (∀ a ∈ pprevChain m (n + 1) (some e.hashBlock), m' a.hashBlock = some a) →
    pprevChain m' (n + 1) (some e.hashBlock) = pprevChain m (n + 1) (some e.hashBlock) := by
  intro n
  induction n with
  | zero =>
    intro e he _ hsame
    have hchain : pprevChain m 1 (some e.hashBlock) = [e] := by
      simp only [pprevChain, he]
    rw [hchain] at hsame ⊢
    simp only [pprevChain, hsame e (List.mem_singleton_self e)]
  | succ n ih =>
    intro e he hn hsame
    obtain ⟨prev, -, hprev, hparent, hheight⟩ := ht.exists_pprev he (by omega)
    have hpprev : e.pprev = some prev.hashBlock := by
      rw [← parentOf_eq he]
      exact hparent
    have hchain : ∀ {m₁ : BlockMap}, m₁ e.hashBlock = some e →
        pprevChain m₁ (n + 1 + 1) (some e.hashBlock) = e :: pprevChain m₁ (n + 1) (some prev.hashBlock) := by
      intro m₁ he₁
      conv_lhs => unfold pprevChain
      simp only [he₁, hpprev]
    rw [hchain he] at hsame ⊢
    rw [hchain (hsame e List.mem_cons_self),
      ih hprev (by omega) fun a ha => hsame a (List.mem_cons_of_mem _ ha)]

theorem ancestors_congr (ht : IndexTree m genesis) (he : m e.hashBlock = some e)
    (hsame : ∀ a ∈ ancestors m e, m' a.hashBlock = some a) : ancestors m' e = ancestors m e :=
  pprevChain_congr ht e.nHeight he rfl hsame

/-! ### One scan of the candidates -/

section Scan

variable {selected : List CBlockIndex} {nStop : Int} {nPrev : Nat}

/-- The block has not been selected yet. -/
def IsFresh (selected : List CBlockIndex) (pindex : CBlockIndex) : Prop :=
  ∀ s ∈ selected, s.hashBlock ≠ pindex.hashBlock

theorem any_hashBlock_eq_false {pindex : CBlockIndex} :
    (selected.any fun s => s.hashBlock = pindex.hashBlock) = false ↔ IsFresh selected pindex := by
  rw [List.any_eq_false]
  simp only [decide_eq_true_eq, IsFresh, ne_eq]

/-- A scan does not fail.  It finds a block if it has one already or if there is a fresh one, and what it finds is
fresh. -/
theorem selectLoop_spec : ∀ (items : List (Int × Uint256)) (best : Option (Uint256 × CBlockIndex)),
    (∀ item ∈ items, (m item.2).isSome = true) →
    ∃ best', selectLoop hashSelection m selected nStop nPrev items best = .ok best' ∧
      (best.isSome = true ∨ (∃ item ∈ items, ∃ pindex, m item.2 = some pindex ∧ IsFresh selected pindex) →
        best'.isSome = true) ∧
      ∀ b ∈ best', (∃ b₀ ∈ best, b.2 = b₀.2) ∨
        (∃ item ∈ items, m item.2 = some b.2) ∧ IsFresh selected b.2 := by
  intro items
  induction items with
  | nil =>
    intro best _
    refine ⟨best, rfl, fun h => ?_, fun b hb => .inl ⟨b, hb, rfl⟩⟩
    rcases h with h | ⟨item, hitem, -⟩
    · exact h
    · cases hitem
  | cons item items ih =>
    intro best hall
    rw [List.forall_mem_cons] at hall
    obtain ⟨pindex, hpindex⟩ := Option.isSome_iff_exists.mp hall.1
    unfold selectLoop
    simp only [hpindex]
    by_cases hbreak : (best.isSome && decide (nStop < pindex.getBlockTime)) = true
    · rw [if_pos hbreak]
      rw [Bool.and_eq_true] at hbreak
      exact ⟨best, rfl, fun _ => hbreak.1, fun b hb => .inl ⟨b, hb, rfl⟩⟩
    rw [if_neg hbreak]
    by_cases hany : (selected.any fun s => s.hashBlock = pindex.hashBlock) = true
    · -- a selected block is passed over
      rw [if_pos hany]
      obtain ⟨best', hok, hsome, hfrom⟩ := ih best hall.2
      refine ⟨best', hok, fun h => hsome ?_, fun b hb => ?_⟩
      · rcases h with h | ⟨item', hitem', pindex', hpindex', hfresh⟩
        · exact .inl h
        · rcases List.mem_cons.mp hitem' with rfl | hitem'
          · rw [hpindex, Option.some.injEq] at hpindex'
            rw [hpindex', any_hashBlock_eq_false.mpr hfresh] at hany
            cases hany
          · exact .inr ⟨item', hitem', pindex', hpindex', hfresh⟩
      · rcases hfrom b hb with h | ⟨⟨item', hitem', h⟩, hfresh⟩
        · exact .inl h
        · exact .inr ⟨⟨item', List.mem_cons_of_mem _ hitem', h⟩, hfresh⟩
    rw [if_neg hany]
    have hfresh : IsFresh selected pindex := any_hashBlock_eq_false.mp (by simpa using hany)
    cases best with
    | none =>
      obtain ⟨best', hok, hsome, hfrom⟩ := ih (some (_, pindex)) hall.2
      refine ⟨best', hok, fun _ => hsome (.inl rfl), fun b hb => .inr ?_⟩
      rcases hfrom b hb with ⟨b₀, ⟨⟩, h⟩ | ⟨⟨item', hitem', h⟩, hfresh'⟩
      · exact ⟨⟨item, List.mem_cons_self, hpindex.trans (congrArg some h.symm)⟩, h ▸ hfresh⟩
      · exact ⟨⟨item', List.mem_cons_of_mem _ hitem', h⟩, hfresh'⟩
    | some best =>
      obtain ⟨hashBest, pindexSelected⟩ := best
      obtain ⟨best', hok, hsome, hfrom⟩ := ih (some _) hall.2
      refine ⟨best', hok, fun _ => hsome (.inl rfl), fun b hb => ?_⟩
      rcases hfrom b hb with ⟨b₀, hb₀, h⟩ | ⟨⟨item', hitem', h⟩, hfresh'⟩
      · -- the better of the two
        obtain rfl := Option.some.inj hb₀
        rw [apply_ite Prod.snd] at h
        have hb' : b.2 = pindex ∨ b.2 = pindexSelected := by
          rw [h]
          exact ite_eq_or_eq _ _ _
        rcases hb' with hb' | hb'
        · exact .inr ⟨⟨item, List.mem_cons_self, hpindex.trans (congrArg some hb'.symm)⟩, hb' ▸ hfresh⟩
        · exact .inl ⟨_, rfl, hb'⟩
      · exact .inr ⟨⟨item', List.mem_cons_of_mem _ hitem', h⟩, hfresh'⟩

theorem selectLoop_congr : ∀ (items : List (Int × Uint256)) (best : Option (Uint256 × CBlockIndex)),
    (∀ item ∈ items, m' item.2 = m item.2) →
    selectLoop hashSelection m' selected nStop nPrev items best =
      selectLoop hashSelection m selected nStop nPrev items best := by
  intro items
  induction items with
  | nil => exact fun _ _ => rfl
  | cons item items ih =>
    intro best hall
    rw [List.forall_mem_cons] at hall
    unfold selectLoop
    simp only [hall.1, ih _ hall.2]

end Scan

/-! ### The rounds -/

theorem getStakeEntropyBit_le (pindex : CBlockIndex) : pindex.getStakeEntropyBit ≤ 1 := by
  have h : pindex.nFlags &&& CBlockIndex.BLOCK_STAKE_ENTROPY ≤ 2 := Nat.and_le_right
  rw [CBlockIndex.getStakeEntropyBit, Nat.shiftRight_one]
  omega

theorem testBit_getStakeEntropyBit (pindex : CBlockIndex) (i : Nat) :
    pindex.getStakeEntropyBit.testBit i = (decide (i = 0) && decide (pindex.getStakeEntropyBit = 1)) := by
  have hle := getStakeEntropyBit_le pindex
  generalize pindex.getStakeEntropyBit = n at hle ⊢
  obtain rfl | rfl : n = 0 ∨ n = 1 := by omega
  · rw [Nat.zero_testBit, decide_eq_false (by decide : ¬ (0 : Nat) = 1), Bool.and_false]
  · rw [Bool.eq_iff_iff, Nat.testBit_one_eq_true_iff_self_eq_zero]
    simp

/-- The state after the rounds `done`: as many different candidates as rounds, and their entropy bits. -/
structure SelectionInv (cands : List CBlockIndex) (done : List Nat) (st : SelectionState) : Prop where
  length_eq : st.mapSelectedBlocks.length = done.length
  mem : ∀ s ∈ st.mapSelectedBlocks, s ∈ cands
  nodup : (st.mapSelectedBlocks.map CBlockIndex.hashBlock).Nodup
  testBit : ∀ r, st.nStakeModifierNew.testBit r =
    st.mapSelectedBlocks[r]?.any fun s => s.getStakeEntropyBit = 1

theorem exists_fresh {cands selected : List CBlockIndex} (hnodup : (cands.map CBlockIndex.hashBlock).Nodup)
    (hlt : selected.length < cands.length) : ∃ c ∈ cands, IsFresh selected c := by
  by_contra hnone
  push Not at hnone
  have hsub : cands.map CBlockIndex.hashBlock ⊆ selected.map CBlockIndex.hashBlock := by
    intro h hh
    obtain ⟨c, hc, rfl⟩ := List.mem_map.mp hh
    have hused := hnone c hc
    rw [IsFresh] at hused
    push Not at hused
    obtain ⟨s, hs, heq⟩ := hused
    exact heq ▸ List.mem_map_of_mem hs
  have hle := hnodup.length_le_of_subset hsub
  rw [List.length_map, List.length_map] at hle
  omega

theorem selectRound_spec {cands : List CBlockIndex} {items : List (Int × Uint256)} {nStakeModifier r : Nat}
    {done : List Nat} {st : SelectionState} (hcands : ∀ c ∈ cands, m c.hashBlock = some c)
    (hnodup : (cands.map CBlockIndex.hashBlock).Nodup)
    (hitems : ∀ item, item ∈ items ↔ ∃ c ∈ cands, (c.getBlockTime, c.hashBlock) = item)
    (hlt : done.length < cands.length) (hr : r = done.length) (hinv : SelectionInv cands done st) :
    ∃ st', selectRound hashSelection m items nStakeModifier st r = .ok st' ∧
      SelectionInv cands (done ++ [r]) st' := by
  have hall : ∀ item ∈ items, (m item.2).isSome = true := by
    intro item hitem
    obtain ⟨c, hc, rfl⟩ := (hitems item).mp hitem
    rw [hcands c hc]
    rfl
  obtain ⟨c, hc, hfresh⟩ := exists_fresh hnodup (hinv.length_eq ▸ hlt)
  obtain ⟨best, hok, hsome, hfrom⟩ := @selectLoop_spec hashSelection m st.mapSelectedBlocks
    (st.nSelectionIntervalStop + getStakeModifierSelectionIntervalSection r) nStakeModifier items none hall
  obtain ⟨b, rfl⟩ := Option.isSome_iff_exists.mp
    (hsome (.inr ⟨_, (hitems _).mpr ⟨c, hc, rfl⟩, c, hcands c hc, hfresh⟩))
  obtain ⟨⟨item, hitem, hb⟩, hbfresh⟩ : (∃ item ∈ items, m item.2 = some b.2) ∧
      IsFresh st.mapSelectedBlocks b.2 := by
    rcases hfrom b rfl with ⟨b₀, hb₀, -⟩ | h
    · cases hb₀
    · exact h
  have hbmem : b.2 ∈ cands := by
    obtain ⟨c', hc', rfl⟩ := (hitems item).mp hitem
    rw [hcands c' hc', Option.some.injEq] at hb
    exact hb ▸ hc'
  refine ⟨_, by rw [selectRound, selectBlockFromCandidates, hok]; rfl, ?_⟩
  constructor
  · simp [hinv.length_eq]
  · intro s hs
    rcases List.mem_append.mp hs with hs | hs
    · exact hinv.mem s hs
    · exact List.mem_singleton.mp hs ▸ hbmem
  · rw [List.map_append, List.nodup_append]
    refine ⟨hinv.nodup, List.nodup_singleton _, ?_⟩
    intro h hh h' hh' heq
    obtain ⟨s, hs, rfl⟩ := List.mem_map.mp hh
    exact hbfresh s hs (heq.trans (List.mem_singleton.mp hh'))
  · intro i
    simp only [Nat.testBit_or, Nat.testBit_shiftLeft, hinv.testBit, testBit_getStakeEntropyBit]
    rw [hr, ← hinv.length_eq, List.getElem?_append]
    by_cases hi : i < st.mapSelectedBlocks.length
    · rw [if_pos hi, decide_eq_false (by omega), Bool.false_and, Bool.or_false]
    · rw [if_neg hi, List.getElem?_eq_none (by omega), Option.any_none, Bool.false_or,
        decide_eq_true (by omega : i ≥ st.mapSelectedBlocks.length), Bool.true_and]
      by_cases heq : i = st.mapSelectedBlocks.length
      · simp [heq]
      · rw [List.getElem?_eq_none (by simp; omega), Option.any_none, decide_eq_false (by omega), Bool.false_and]

theorem eq_length_of_range_eq {k r : Nat} {done rest : List Nat} (h : List.range k = done ++ r :: rest) :
    r = done.length ∧ done.length < k := by
  have hlen := congrArg List.length h
  rw [List.length_range, List.length_append, List.length_cons] at hlen
  have hget := congrArg (fun l : List Nat => l[done.length]?) h
  simp only [List.getElem?_append_right le_rfl, Nat.sub_self, List.getElem?_cons_zero] at hget
  rw [List.getElem?_range (by omega), Option.some.injEq] at hget
  exact ⟨hget.symm, by omega⟩

theorem stakeCandidates_spec (ht : IndexTree m genesis) (he : m e.hashBlock = some e) :
    (∀ c ∈ stakeCandidates m e, m c.hashBlock = some c) ∧
      ((stakeCandidates m e).map CBlockIndex.hashBlock).Nodup := by
  have has := ancestorList ht he
  have hsub : List.Sublist (stakeCandidates m e) (ancestors m e) := List.takeWhile_sublist _
  exact ⟨fun c hc => (has.mem c (hsub.subset hc)).1, has.nodup_hash.sublist (hsub.map _)⟩

theorem mem_vSortedByTimestamp (item : Int × Uint256) :
    item ∈ vSortedByTimestamp m e ↔ ∃ c ∈ stakeCandidates m e, (c.getBlockTime, c.hashBlock) = item := by
  rw [vSortedByTimestamp, List.mem_mergeSort, List.mem_reverse, List.mem_map]

theorem length_vSortedByTimestamp : (vSortedByTimestamp m e).length = (stakeCandidates m e).length := by
  rw [vSortedByTimestamp, List.length_mergeSort, List.length_reverse, List.length_map]

/-- **The rounds.**  None of them fails, and each selects a candidate of its own. -/
theorem selectBlocks_spec (ht : IndexTree m genesis) (he : m e.hashBlock = some e) (nStakeModifier : Nat) :
    ∃ st, selectBlocks hashSelection m e nStakeModifier = .ok st ∧
      SelectionInv (stakeCandidates m e) (List.range (min 64 (stakeCandidates m e).length)) st := by
  obtain ⟨hmem, hnodup⟩ := stakeCandidates_spec ht he
  unfold selectBlocks
  simp only [length_vSortedByTimestamp]
  refine Loop.foldlM_total (m := Except Reject) (SelectionInv (stakeCandidates m e)) ?_ ?_
  · exact ⟨rfl, fun s hs => (by cases hs), List.nodup_nil, fun r => Nat.zero_testBit r⟩
  · intro done r rest st hrange hinv
    obtain ⟨hr, hlt⟩ := eq_length_of_range_eq hrange
    exact selectRound_spec hmem hnodup mem_vSortedByTimestamp (by omega) hr hinv

/-! ### The modifier -/

theorem getLastStakeModifier_total (ht : IndexTree m genesis)
    (hgenesis : ∀ g, m genesis = some g → g.generatedStakeModifier = true) (he : m e.hashBlock = some e) :
    ∃ last, getLastStakeModifier m e = .ok last := by
  obtain ⟨g, hg, hgen⟩ := (ancestorList ht he).genesis_mem
  unfold getLastStakeModifier
  cases hfind : (ancestors m e).find? CBlockIndex.generatedStakeModifier with
  | none =>
    rw [List.find?_eq_none] at hfind
    exact absurd (hgenesis g hgen) (hfind g hg)
  | some pindex => exact ⟨_, rfl⟩

/-- The ancestors of the block that `pindexPrev` points to. -/
def ancestorsOf (m : BlockMap) (pindexPrev : Option Uint256) : List CBlockIndex :=
  (pindexPrev.bind m).elim [] (ancestors m)

theorem computeNextStakeModifier_congr (ht : IndexTree m genesis) {pindexPrev : Option Uint256}
    (hp : ∀ h ∈ pindexPrev, (m h).isSome = true)
    (hsame : ∀ a ∈ ancestorsOf m pindexPrev, m' a.hashBlock = some a) :
    computeNextStakeModifier hashSelection m' pindexPrev = computeNextStakeModifier hashSelection m pindexPrev := by
  cases pindexPrev with
  | none => rfl
  | some h =>
    obtain ⟨e, he⟩ := Option.isSome_iff_exists.mp (hp h rfl)
    obtain rfl := ht.hash he
    have hchain : pprevChain m (e.nHeight + 1) (some e.hashBlock) = e :: pprevChain m e.nHeight e.pprev := by
      conv_lhs => unfold pprevChain
      simp only [he]
    have hself : e ∈ ancestors m e := by
      rw [ancestors, hchain]
      exact List.mem_cons_self
    rw [ancestorsOf, Option.bind_some, he, Option.elim_some] at hsame
    have hanc := ancestors_congr ht he hsame
    have hcands : stakeCandidates m' e = stakeCandidates m e := by rw [stakeCandidates, hanc, stakeCandidates]
    have hsorted : vSortedByTimestamp m' e = vSortedByTimestamp m e := by
      rw [vSortedByTimestamp, hcands, vSortedByTimestamp]
    -- the scans look up candidates only
    have hround : ∀ nStakeModifier, selectRound hashSelection m' (vSortedByTimestamp m e) nStakeModifier =
        selectRound hashSelection m (vSortedByTimestamp m e) nStakeModifier := by
      intro nStakeModifier
      funext st r
      have hlookup : ∀ item ∈ vSortedByTimestamp m e, m' item.2 = m item.2 := by
        intro item hitem
        obtain ⟨c, hc, rfl⟩ := (mem_vSortedByTimestamp item).mp hitem
        rw [(stakeCandidates_spec ht he).1 c hc]
        exact hsame c ((List.takeWhile_sublist _).subset hc)
      simp only [selectRound, selectBlockFromCandidates, selectLoop_congr _ none hlookup]
    simp only [computeNextStakeModifier, Option.bind_some, he, hsame e hself, getLastStakeModifier, hanc,
      selectBlocks, hsorted, hround]

/-- **`ComputeNextStakeModifier`** does not fail on a chain that begins with the genesis block.  A new modifier comes
from 64 different candidates, or from all of them if there are fewer: bit `r` is the entropy bit of the block that
round `r` selects.  The result depends on the ancestors alone. -/
theorem computeNextStakeModifier_spec (ht : IndexTree m genesis)
    (hgenesis : ∀ g, m genesis = some g → g.generatedStakeModifier = true) {pindexPrev : Option Uint256}
    (hp : ∀ h ∈ pindexPrev, (m h).isSome = true) :
    ∃ nStakeModifier fGenerated,
      computeNextStakeModifier hashSelection m pindexPrev = .ok (nStakeModifier, fGenerated) ∧
      (∀ e ∈ pindexPrev.bind m, fGenerated = true → ∃ last st, getLastStakeModifier m e = .ok last ∧
        selectBlocks hashSelection m e last.1 = .ok st ∧
        st.mapSelectedBlocks.length = min 64 (stakeCandidates m e).length ∧
        (∀ s ∈ st.mapSelectedBlocks, s ∈ stakeCandidates m e) ∧
        (st.mapSelectedBlocks.map CBlockIndex.hashBlock).Nodup ∧
        ∀ r, nStakeModifier.testBit r = st.mapSelectedBlocks[r]?.any fun s => s.getStakeEntropyBit = 1) ∧
      ∀ m' : BlockMap, (∀ a ∈ ancestorsOf m pindexPrev, m' a.hashBlock = some a) →
        computeNextStakeModifier hashSelection m' pindexPrev = .ok (nStakeModifier, fGenerated) := by
  have hcongr := fun (m' : BlockMap) hsame =>
    @computeNextStakeModifier_congr hashSelection m m' genesis ht pindexPrev hp hsame
  cases hpe : pindexPrev.bind m with
  | none =>
    have hok : computeNextStakeModifier hashSelection m pindexPrev = .ok (0, true) := by
      rw [computeNextStakeModifier, hpe]
    exact ⟨0, true, hok, fun e he => (by cases he), fun m' hsame => (hcongr m' hsame).trans hok⟩
  | some e =>
    obtain ⟨h, rfl, he⟩ := Option.bind_eq_some_iff.mp hpe
    obtain rfl := ht.hash he
    obtain ⟨last, hlast⟩ := getLastStakeModifier_total ht hgenesis he
    obtain ⟨st, hst, hinv⟩ := @selectBlocks_spec hashSelection _ _ _ ht he last.1
    by_cases hold : e.getBlockTime / nModifierInterval ≤ last.2 / nModifierInterval
    · have hok : computeNextStakeModifier hashSelection m (some e.hashBlock) = .ok (last.1, false) := by
        rw [computeNextStakeModifier, hpe]
        simp only [hlast, bind, Except.bind, if_pos hold]
        rfl
      exact ⟨_, _, hok, fun _ _ hf => (by cases hf), fun m' hsame => (hcongr m' hsame).trans hok⟩
    · have hok : computeNextStakeModifier hashSelection m (some e.hashBlock) = .ok (st.nStakeModifierNew, true) := by
        rw [computeNextStakeModifier, hpe]
        simp only [hlast, bind, Except.bind, if_neg hold, hst]
        rfl
      refine ⟨_, _, hok, fun e' he' _ => ?_, fun m' hsame => (hcongr m' hsame).trans hok⟩
      obtain rfl := Option.some.inj he'
      refine ⟨last, st, hlast, hst, ?_, hinv.mem, hinv.nodup, hinv.testBit⟩
      rw [hinv.length_eq, List.length_range]

def entropyGenesis : CBlockIndex := { hashBlock := 7, nFlags := 6 }

def secondBlock : CBlockIndex := { hashBlock := 8, pprev := some 7, nHeight := 1, nTime := 130 }

def twoBlockIndex : BlockMap :=
  Function.update (Function.update (fun _ => none) 7 (some entropyGenesis)) 8 (some secondBlock)

theorem indexTree_twoBlockIndex : IndexTree twoBlockIndex 7 :=
  @IndexTree.insert _ 7 secondBlock (indexTree_single rfl rfl rfl rfl) entropyGenesis (by decide) rfl (by decide) rfl

theorem vSortedByTimestamp_twoBlockIndex : vSortedByTimestamp twoBlockIndex secondBlock = [(0, 7), (130, 8)] :=
  List.mergeSort_of_pairwise (by decide)

/-- Both blocks are selected. -/
theorem computeNextStakeModifier_twoBlocks : ∃ (nStakeModifier : Nat) (st : SelectionState),
    computeNextStakeModifier (fun h _ => h) twoBlockIndex (some 8) = .ok (nStakeModifier, true) ∧
      st.mapSelectedBlocks.length = 2 ∧
      ∀ r, nStakeModifier.testBit r = st.mapSelectedBlocks[r]?.any fun s => s.getStakeEntropyBit = 1 := by
  obtain ⟨nStakeModifier, fGenerated, hok, hspec, -⟩ :=
    @computeNextStakeModifier_spec (fun h _ => h) twoBlockIndex 7 indexTree_twoBlockIndex
      (fun g hg => by cases hg; decide) (some 8) (fun h hh => by cases hh; decide)
  have hrun : computeNextStakeModifier (fun h _ => h) twoBlockIndex (some 8) = .ok (1, true) := by
    have hrounds : selectBlocks (fun h _ => h) twoBlockIndex secondBlock 0 =
        .ok ⟨selectionIntervalStart secondBlock + 40 + 40, 1, [entropyGenesis, secondBlock]⟩ := by
      rw [selectBlocks, vSortedByTimestamp_twoBlockIndex]
      rfl
    change (selectBlocks (fun h _ => h) twoBlockIndex secondBlock 0).bind _ = _
    rw [hrounds]
    rfl
  obtain ⟨rfl, rfl⟩ := Prod.mk.inj (Except.ok.inj (hok.symm.trans hrun))
  obtain ⟨last, st, -, -, hlength, -, -, hbits⟩ := hspec _ rfl rfl
  exact ⟨1, st, hok, hlength.trans (by decide), hbits⟩

end Sphinx
