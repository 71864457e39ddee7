import Sphinx.BlockLocator
import Sphinx.Equiv.Reorganize

/-!
# What a block locator finds

`Set` and `GetDistanceBack` follow one schedule of distances, `distanceAt`.  The block found is the first
one of the schedule that is at or below the fork, and the distance is exact unless the schedule steps over
the genesis block, which stands last in every locator.

* `locator_block`: the block that `GetBlockIndex` returns;
* `locator_synchronises_iff`: when `GetDistanceBack` returns its distance.
-/

namespace Sphinx

open ParentTree

namespace CBlockLocator

/-! ### The schedule -/

/-- The distance of the entry `j` of a locator. -/
def distanceAt (j : Nat) : Nat := if j ≤ 10 then j else 9 + 2 ^ (j - 10)

theorem distanceAt_succ (j : Nat) : distanceAt (j + 1) = distanceAt j + 2 ^ (j - 10) := by
  unfold distanceAt
  obtain hj | rfl | hj : j < 10 ∨ j = 10 ∨ 10 < j := by omega
  · rw [if_pos (by omega), if_pos (by omega), Nat.sub_eq_zero_of_le (by omega), pow_zero]
  · rfl
  · rw [if_neg (by omega), if_neg (by omega), show j + 1 - 10 = (j - 10) + 1 by omega, pow_succ]
    omega

theorem distanceAt_strictMono : StrictMono distanceAt := by
  apply strictMono_nat_of_lt_succ
  intro j
  rw [distanceAt_succ]
  have : 0 < 2 ^ (j - 10) := Nat.two_pow_pos _
  omega

theorem ten_lt_distanceAt_iff {j : Nat} : 10 < distanceAt j ↔ 10 < j :=
  distanceAt_strictMono.lt_iff_lt (a := 10)

theorem exists_distanceAt_iff {d : Nat} : (∃ j, distanceAt j = d) ↔ d ≤ 10 ∨ ∃ i, d = 9 + 2 ^ i := by
  constructor
  · rintro ⟨j, rfl⟩
    unfold distanceAt
    split_ifs with hj
    · exact .inl hj
    · exact .inr ⟨j - 10, rfl⟩
  · rintro (hd | ⟨i, rfl⟩)
    · exact ⟨d, if_pos hd⟩
    · refine ⟨i + 10, ?_⟩
      cases i with
      | zero => rfl
      | succ i =>
        unfold distanceAt
        rw [if_neg (by omega), Nat.add_sub_cancel]

/-- The next distance is less than twice as far from any point in between. -/
theorem distanceAt_succ_lt {j e : Nat} (hlast : distanceAt j < e) : distanceAt (j + 1) < 2 * e + 1 := by
  rw [distanceAt_succ]
  by_cases hj : j ≤ 10
  · rw [Nat.sub_eq_zero_of_le hj, pow_zero]
    omega
  · unfold distanceAt at hlast ⊢
    rw [if_neg hj] at hlast ⊢
    omega

/-! ### The sender -/

variable {genesis t : Uint256} {sender : BlockMap}

theorem stepBack_none (m : BlockMap) (n : Nat) : stepBack m n none = none := by
  cases n <;> rfl

theorem stepBack_some (m : BlockMap) (n : Nat) (a : Uint256) :
    stepBack m n (some a) = climb (parentOf m) n a := by
  induction n generalizing a with
  | zero => rfl
  | succ n ih =>
    show stepBack m n (parentOf m a) = (parentOf m a).bind (climb (parentOf m) n)
    cases parentOf m a with
    | none => exact stepBack_none m n
    | some p => exact ih p

theorem setLoop_none (m : BlockMap) (fuel nStep : Nat) (vHave : List Uint256) :
    setLoop genesis m fuel none nStep vHave = some ⟨vHave ++ [genesis]⟩ := by
  cases fuel <;> rfl

/-- The block at the distance `k` from `t`. -/
def blockAt (genesis : Uint256) (m : BlockMap) (t : Uint256) (k : Nat) : Uint256 :=
  (climb (parentOf m) k t).getD genesis

/-- The first `j` entries of the locator. -/
def entries (genesis : Uint256) (m : BlockMap) (t : Uint256) (j : Nat) : List Uint256 :=
  (List.range j).map fun i => blockAt genesis m t (distanceAt i)

theorem length_entries (j : Nat) : (entries genesis sender t j).length = j := by
  rw [entries, List.length_map, List.length_range]

theorem setLoop_succ {a : Uint256} {j : Nat} (ha : climb (parentOf sender) (distanceAt j) t = some a)
    (fuel : Nat) :
    setLoop genesis sender (fuel + 1) (climb (parentOf sender) (distanceAt j) t) (2 ^ (j - 10))
        (entries genesis sender t j) =
      setLoop genesis sender fuel (climb (parentOf sender) (distanceAt (j + 1)) t) (2 ^ (j + 1 - 10))
        (entries genesis sender t (j + 1)) := by
  have hentries : entries genesis sender t j ++ [a] = entries genesis sender t (j + 1) := by
    rw [entries, entries, List.range_succ, List.map_append, List.map_singleton, blockAt, ha, Option.getD_some]
  have hnext : climb (parentOf sender) (2 ^ (j - 10)) a = climb (parentOf sender) (distanceAt (j + 1)) t := by
    rw [distanceAt_succ, climb_add, ha, Option.bind_some]
  have hstep : (if 10 < j + 1 then 2 ^ (j - 10) * 2 else 2 ^ (j - 10)) = 2 ^ (j + 1 - 10) := by
    split_ifs with hj
    · rw [← pow_succ, show j - 10 + 1 = j + 1 - 10 by omega]
    · rw [Nat.sub_eq_zero_of_le (by omega), Nat.sub_eq_zero_of_le (by omega)]
  rw [ha, setLoop]
  simp only [stepBack_some, hentries, hnext, length_entries, hstep]

/-- `Set` ends, and the locator holds the blocks at the distances of the schedule that do not exceed the
height of `t`, and the genesis block. -/
theorem setLoop_spec (hs : IndexTree sender genesis) (ht : t ∈ indexed sender) {fuel : Nat} :
    ∀ {j : Nat}, (∀ i < j, distanceAt i ≤ heightOf sender t) → heightOf sender t < distanceAt j + fuel →
      ∃ n, (∀ i < n, distanceAt i ≤ heightOf sender t) ∧ heightOf sender t < distanceAt n ∧
        setLoop genesis sender fuel (climb (parentOf sender) (distanceAt j) t) (2 ^ (j - 10))
          (entries genesis sender t j) = some ⟨entries genesis sender t n ++ [genesis]⟩ := by
  induction fuel with
  | zero =>
    intro j hj hfuel
    have hnone : climb (parentOf sender) (distanceAt j) t = none := by
      rw [← Option.not_isSome_iff_eq_none, hs.graded.climb_isSome_iff ht]
      omega
    refine ⟨j, hj, by omega, ?_⟩
    rw [hnone, setLoop_none]
  | succ fuel ih =>
    intro j hj hfuel
    cases hc : climb (parentOf sender) (distanceAt j) t with
    | none =>
      have hlt : ¬distanceAt j ≤ heightOf sender t := by
        rw [← hs.graded.climb_isSome_iff ht, hc]
        exact Bool.false_ne_true
      refine ⟨j, hj, by omega, ?_⟩
      rw [setLoop_none]
    | some a =>
      have hle : distanceAt j ≤ heightOf sender t := by
        rw [← hs.graded.climb_isSome_iff ht, hc]
        rfl
      have hlt : distanceAt j < distanceAt (j + 1) := distanceAt_strictMono (Nat.lt_succ_self j)
      rw [← hc, setLoop_succ hc]
      refine ih (fun i hi => ?_) (by omega)
      obtain hi | rfl := Nat.lt_succ_iff_lt_or_eq.mp hi
      · exact hj i hi
      · exact hle

/-- More rounds do not change the locator. -/
theorem setLoop_mono {fuel fuel' : Nat} (hle : fuel ≤ fuel') {pindex : Option Uint256} {nStep : Nat}
    {vHave : List Uint256} {locator : CBlockLocator}
    (h : setLoop genesis sender fuel pindex nStep vHave = some locator) :
    setLoop genesis sender fuel' pindex nStep vHave = some locator := by
  induction fuel generalizing fuel' pindex nStep vHave with
  | zero =>
    cases pindex with
    | none => rwa [setLoop_none] at h ⊢
    | some a => cases h
  | succ fuel ih =>
    cases pindex with
    | none => rwa [setLoop_none] at h ⊢
    | some a =>
      obtain ⟨n, rfl⟩ : ∃ n, fuel' = n + 1 := ⟨fuel' - 1, by omega⟩
      simp only [setLoop] at h ⊢
      exact ih (by omega) h

theorem set_spec (hs : IndexTree sender genesis) (ht : t ∈ indexed sender) :
    ∃ n, (∀ i < n, distanceAt i ≤ heightOf sender t) ∧ heightOf sender t < distanceAt n ∧
      (∃ fuel, set genesis sender fuel (some t) = some ⟨entries genesis sender t n ++ [genesis]⟩) ∧
      ∀ fuel locator, set genesis sender fuel (some t) = some locator →
        locator = ⟨entries genesis sender t n ++ [genesis]⟩ := by
  have hfuel : heightOf sender t < distanceAt 0 + (heightOf sender t + 1) := by omega
  obtain ⟨n, hn, hlt, hset⟩ := setLoop_spec hs ht (fun i hi => absurd hi (Nat.not_lt_zero i)) hfuel
  refine ⟨n, hn, hlt, ⟨heightOf sender t + 1, hset⟩, fun fuel locator hlocator => ?_⟩
  have h1 := setLoop_mono (Nat.le_max_left fuel (heightOf sender t + 1)) hlocator
  have h2 := setLoop_mono (Nat.le_max_right fuel (heightOf sender t + 1)) hset
  exact Option.some.inj (h1.symm.trans h2)

/-! ### The receiver -/

variable {node : Node} {tip : Uint256}

theorem distanceLoop_eq (node : Node) (vHave : List Uint256) (j : Nat) :
    distanceLoop node vHave (distanceAt j) (2 ^ (j - 10)) =
      distanceAt (j + vHave.findIdx (inMainChain node)) := by
  induction vHave generalizing j with
  | nil => rfl
  | cons hash vHave ih =>
    rw [distanceLoop, List.findIdx_cons]
    cases inMainChain node hash with
    | true => rfl
    | false =>
      have hstep : (if 10 < distanceAt (j + 1) then 2 ^ (j - 10) * 2 else 2 ^ (j - 10)) = 2 ^ (j + 1 - 10) := by
        rw [if_congr ten_lt_distanceAt_iff rfl rfl]
        split_ifs with hj
        · rw [← pow_succ, show j - 10 + 1 = j + 1 - 10 by omega]
        · rw [Nat.sub_eq_zero_of_le (by omega), Nat.sub_eq_zero_of_le (by omega)]
      simp only [Bool.false_eq_true, if_false, cond_false, ← distanceAt_succ, hstep]
      rw [ih, Nat.add_right_comm, Nat.add_assoc]

/-- A sender with the block `t`, and a receiver whose main chain ends in `tip`.  They have the genesis
block in common, and a block that both have has the same parent. -/
structure Peers (genesis : Uint256) (sender : BlockMap) (t : Uint256) (node : Node) (tip : Uint256) : Prop where
  tree : IndexTree sender genesis
  mem : t ∈ indexed sender
  receiverTree : IndexTree node.mapBlockIndex genesis
  receiverMem : tip ∈ indexed node.mapBlockIndex
  follows : Follows (parentOf node.mapBlockIndex) (nextOf node.mapBlockIndex) tip
  best : node.pindexBest = some tip
  agree : ∀ h ∈ indexed sender, h ∈ indexed node.mapBlockIndex →
    parentOf sender h = parentOf node.mapBlockIndex h

/-- `b` is in the branch of `t` and in the main chain. -/
def Common (sender : BlockMap) (t : Uint256) (node : Node) (tip b : Uint256) : Prop :=
  Ancestor (parentOf sender) t b ∧ Ancestor (parentOf node.mapBlockIndex) tip b

/-- `c` is the last block common to both. -/
structure LastCommon (sender : BlockMap) (t : Uint256) (node : Node) (tip c : Uint256) : Prop where
  common : Common sender t node tip c
  last : ∀ b, Common sender t node tip b → heightOf sender b ≤ heightOf sender c

namespace Peers

variable (h : Peers genesis sender t node tip)

include h

theorem inMainChain_iff (b : Uint256) :
    inMainChain node b = true ↔ Ancestor (parentOf node.mapBlockIndex) tip b := by
  unfold inMainChain
  cases hb : node.mapBlockIndex b with
  | none =>
    have hmem : ¬Ancestor (parentOf node.mapBlockIndex) tip b := by
      intro hanc
      obtain ⟨e, he⟩ := exists_of_mem_indexed (h.receiverTree.graded.mem_of_ancestor h.receiverMem hanc)
      rw [hb] at he
      cases he
    simp [hmem]
  | some pindex =>
    show isInMainChain node pindex = true ↔ _
    rw [← h.follows.ancestor_iff b, nextOf_eq hb, isInMainChain, h.best, h.receiverTree.hash hb]
    simp [Option.ne_none_iff_isSome]

theorem common_of_ancestor {c b : Uint256} (hc : Common sender t node tip c)
    (hb : Ancestor (parentOf sender) c b) : Common sender t node tip b := by
  induction hb with
  | refl => exact hc
  | @tail x b _ hp ih =>
    have hx := h.tree.graded.mem_of_ancestor h.mem ih.1
    have hx' := h.receiverTree.graded.mem_of_ancestor h.receiverMem ih.2
    refine ⟨ih.1.tail hp, ih.2.tail ?_⟩
    rw [← h.agree x hx hx']
    exact hp

theorem inMainChain_blockAt_iff {c : Uint256} (hc : LastCommon sender t node tip c) {k : Nat}
    (hk : k ≤ heightOf sender t) :
    inMainChain node (blockAt genesis sender t k) = true ↔ heightOf sender t - heightOf sender c ≤ k := by
  have hgraded := h.tree.graded
  obtain ⟨b, hb⟩ := Option.isSome_iff_exists.mp ((hgraded.climb_isSome_iff h.mem).mpr hk)
  obtain ⟨-, hanc, hheight⟩ := hgraded.climb_spec h.mem hb
  rw [blockAt, hb, Option.getD_some, h.inMainChain_iff]
  constructor
  · intro hmain
    have := hc.last b ⟨hanc, hmain⟩
    omega
  · intro hle
    have hcV := hgraded.mem_of_ancestor h.mem hc.common.1
    have hcb : climb (parentOf sender) (k - (heightOf sender t - heightOf sender c)) c = some b := by
      have hclimb := hgraded.climb_of_ancestor h.mem hc.common.1
      rw [show k = (heightOf sender t - heightOf sender c) + (k - (heightOf sender t - heightOf sender c)) by omega,
        climb_add, hclimb, Option.bind_some] at hb
      exact hb
    exact (h.common_of_ancestor hc.common (hgraded.climb_spec hcV hcb).2.1).2

/-- The first entry in the main chain is the first of the schedule that is not above the fork, or the
genesis block at the end. -/
theorem findIdx_entries {c : Uint256} (hc : LastCommon sender t node tip c) {n : Nat}
    (hn : ∀ i < n, distanceAt i ≤ heightOf sender t) :
    (∃ i < n, heightOf sender t - heightOf sender c ≤ distanceAt i ∧
      (∀ j < i, distanceAt j < heightOf sender t - heightOf sender c) ∧
      (entries genesis sender t n ++ [genesis]).findIdx (inMainChain node) = i) ∨
    (∀ i < n, distanceAt i < heightOf sender t - heightOf sender c) ∧
      (entries genesis sender t n ++ [genesis]).findIdx (inMainChain node) = n := by
  have hlength : (entries genesis sender t n ++ [genesis]).length = n + 1 := by
    rw [List.length_append, length_entries, List.length_singleton]
  have hentry : ∀ j (_ : j < n) (_ : j < (entries genesis sender t n ++ [genesis]).length),
      inMainChain node (entries genesis sender t n ++ [genesis])[j] =
        decide (heightOf sender t - heightOf sender c ≤ distanceAt j) := by
    intro j hj hlt
    have hget : (entries genesis sender t n ++ [genesis])[j] = blockAt genesis sender t (distanceAt j) := by
      rw [List.getElem_append_left (by rwa [length_entries])]
      simp [entries]
    rw [hget, Bool.eq_iff_iff, decide_eq_true_iff]
    exact h.inMainChain_blockAt_iff hc (hn j hj)
  by_cases hex : ∃ i, i < n ∧ heightOf sender t - heightOf sender c ≤ distanceAt i
  · refine .inl ⟨Nat.find hex, (Nat.find_spec hex).1, (Nat.find_spec hex).2, fun j hj => ?_, ?_⟩
    · have := Nat.find_min hex hj
      have := (Nat.find_spec hex).1
      omega
    · have hlt := (Nat.find_spec hex).1
      rw [List.findIdx_eq (by omega), hentry _ hlt (by omega)]
      refine ⟨decide_eq_true (Nat.find_spec hex).2, fun j hj => ?_⟩
      have hmin := Nat.find_min hex hj
      rw [hentry j (by omega) (by omega)]
      exact decide_eq_false fun hle => hmin ⟨by omega, hle⟩
  · have hbefore : ∀ i < n, distanceAt i < heightOf sender t - heightOf sender c :=
      fun i hi => Nat.not_le.mp fun hle => hex ⟨i, hi, hle⟩
    refine .inr ⟨hbefore, ?_⟩
    rw [List.findIdx_eq (by omega)]
    constructor
    · have hlast : n < (entries genesis sender t n ++ [genesis]).length := by omega
      have hgenesis : (entries genesis sender t n ++ [genesis])[n] = genesis := by
        rw [List.getElem_append_right (by rw [length_entries])]
        simp [length_entries]
      rw [hgenesis, h.inMainChain_iff]
      exact h.receiverTree.graded.ancestor_root h.receiverMem
    · intro j hj
      rw [hentry j hj]
      exact decide_eq_false (Nat.not_le.mpr (hbefore j hj))

theorem heightOf_eq {b : Uint256} (hb : Common sender t node tip b) :
    heightOf sender b = heightOf node.mapBlockIndex b := by
  generalize hk : heightOf sender b = k
  induction k generalizing b with
  | zero =>
    have hmem := h.tree.graded.mem_of_ancestor h.mem hb.1
    rw [h.tree.graded.eq_root_of_height hmem hk, h.receiverTree.graded.height_root]
  | succ k ih =>
    have hmem := h.tree.graded.mem_of_ancestor h.mem hb.1
    have hmem' := h.receiverTree.graded.mem_of_ancestor h.receiverMem hb.2
    cases hp : parentOf sender b with
    | none =>
      rw [h.tree.graded.eq_root hmem hp, h.tree.graded.height_root] at hk
      cases hk
    | some p =>
      have hp' : parentOf node.mapBlockIndex b = some p := (h.agree b hmem hmem').symm.trans hp
      have hheight := h.tree.graded.height_eq hmem hp
      have hheight' := h.receiverTree.graded.height_eq hmem' hp'
      have := ih ⟨hb.1.tail hp, hb.2.tail hp'⟩ (by omega)
      omega

end Peers

/-- The block `b` lies on both sides, and it is not far below the last common block `c`. -/
structure Found (sender : BlockMap) (t : Uint256) (node : Node) (tip c b : Uint256) : Prop where
  common : Common sender t node tip b
  le : heightOf node.mapBlockIndex b ≤ heightOf sender c
  near : heightOf node.mapBlockIndex b = 0 ∨
    heightOf sender c - heightOf node.mapBlockIndex b < heightOf sender t - heightOf sender c + 1
  recent : heightOf sender t - heightOf sender c ≤ 10 → heightOf node.mapBlockIndex b = heightOf sender c

/-- The locator of `t` has an entry below the fork that is not the genesis block at its end. -/
def HasEntryBelow (sender : BlockMap) (t c : Uint256) : Prop :=
  ∃ d, (d ≤ 10 ∨ ∃ i, d = 9 + 2 ^ i) ∧ heightOf sender t - heightOf sender c ≤ d ∧ d ≤ heightOf sender t

section

variable {c : Uint256}

theorem found_of_entry (h : Peers genesis sender t node tip) (hc : LastCommon sender t node tip c) {i : Nat}
    (hi : distanceAt i ≤ heightOf sender t) (hbelow : heightOf sender t - heightOf sender c ≤ distanceAt i)
    (hbefore : ∀ j < i, distanceAt j < heightOf sender t - heightOf sender c) :
    Found sender t node tip c (blockAt genesis sender t (distanceAt i)) ∧
      heightOf node.mapBlockIndex (blockAt genesis sender t (distanceAt i)) + distanceAt i =
        heightOf sender t := by
  obtain ⟨b, hb⟩ := Option.isSome_iff_exists.mp ((h.tree.graded.climb_isSome_iff h.mem).mpr hi)
  have hblock : blockAt genesis sender t (distanceAt i) = b := by rw [blockAt, hb, Option.getD_some]
  obtain ⟨-, hanc, hheight⟩ := h.tree.graded.climb_spec h.mem hb
  have hmain : inMainChain node b = true := by
    rw [← hblock]
    exact (h.inMainChain_blockAt_iff hc hi).mpr hbelow
  have hcommon : Common sender t node tip b := ⟨hanc, (h.inMainChain_iff b).mp hmain⟩
  have hle := hc.last b hcommon
  have hct := h.tree.graded.height_le h.mem hc.common.1
  rw [hblock, ← h.heightOf_eq hcommon]
  -- the distance before is above the fork
  have hnear : distanceAt i < 2 * (heightOf sender t - heightOf sender c) + 1 ∧
      (heightOf sender t - heightOf sender c ≤ 10 → distanceAt i = heightOf sender t - heightOf sender c) := by
    cases i with
    | zero =>
      have hzero : distanceAt 0 = 0 := rfl
      omega
    | succ j =>
      have hlast := hbefore j (Nat.lt_succ_self j)
      refine ⟨distanceAt_succ_lt hlast, fun hten => ?_⟩
      have hj : j < 10 := by
        have := ten_lt_distanceAt_iff.not.mp (by omega : ¬10 < distanceAt j)
        have : distanceAt 10 = 10 := rfl
        by_contra hj
        obtain rfl : j = 10 := by omega
        omega
      have hpow : 2 ^ (j - 10) = 1 := by rw [show j - 10 = 0 by omega, pow_zero]
      have := distanceAt_succ j
      omega
  refine ⟨⟨hcommon, ?_, .inr ?_, fun hten => ?_⟩, hheight⟩
  · rw [← h.heightOf_eq hcommon]
    exact hle
  · rw [← h.heightOf_eq hcommon]
    omega
  · rw [← h.heightOf_eq hcommon]
    have := hnear.2 hten
    omega

theorem found_genesis (h : Peers genesis sender t node tip) {n : Nat}
    (hlt : heightOf sender t < distanceAt n)
    (hbefore : ∀ i < n, distanceAt i < heightOf sender t - heightOf sender c) :
    Found sender t node tip c genesis := by
  have hroot : heightOf node.mapBlockIndex genesis = 0 := h.receiverTree.graded.height_root
  refine ⟨⟨h.tree.graded.ancestor_root h.mem, h.receiverTree.graded.ancestor_root h.receiverMem⟩, ?_,
    .inl hroot, fun hten => ?_⟩
  · rw [hroot]
    exact Nat.zero_le _
  · -- with the fork so near it is an entry of its own
    exfalso
    have hself : distanceAt (heightOf sender t - heightOf sender c) =
        heightOf sender t - heightOf sender c := if_pos hten
    have hn : heightOf sender t - heightOf sender c < n := by
      apply distanceAt_strictMono.lt_iff_lt.mp
      omega
    have := hbefore _ hn
    omega

/-- What `GetBlockIndex` and `GetDistanceBack` return. -/
theorem locator_found (h : Peers genesis sender t node tip) (hc : LastCommon sender t node tip c) {fuel : Nat}
    {locator : CBlockLocator} (hset : set genesis sender fuel (some t) = some locator) :
    ∃ b, getBlockIndex node locator = some b ∧ Found sender t node tip c b ∧
      (getDistanceBack node locator = heightOf sender t - heightOf node.mapBlockIndex b ↔
        HasEntryBelow sender t c) := by
  obtain ⟨n, hn, hlt, -, hlocator⟩ := set_spec h.tree h.mem
  obtain rfl := hlocator fuel locator hset
  have hdistance : getDistanceBack node ⟨entries genesis sender t n ++ [genesis]⟩ =
      distanceAt ((entries genesis sender t n ++ [genesis]).findIdx (inMainChain node)) := by
    have hloop := distanceLoop_eq node (entries genesis sender t n ++ [genesis]) 0
    rwa [Nat.zero_add] at hloop
  have hblock {hash : Uint256} (hget : (entries genesis sender t n ++ [genesis])[
      (entries genesis sender t n ++ [genesis]).findIdx (inMainChain node)]? = some hash) :
      getBlockIndex node ⟨entries genesis sender t n ++ [genesis]⟩ = some hash := by
    rw [getBlockIndex, List.find?_eq_getElem?_findIdx, hget]
  obtain ⟨i, hi, hbelow, hbefore, hfind⟩ | ⟨hbefore, hfind⟩ := h.findIdx_entries hc hn
  · obtain ⟨hfound, hheight⟩ := found_of_entry h hc (hn i hi) hbelow hbefore
    refine ⟨_, hblock ?_, hfound, fun _ => ?_, fun _ => ?_⟩
    · rw [hfind, List.getElem?_append_left (by rwa [length_entries])]
      simp [entries, hi]
    · exact ⟨distanceAt i, exists_distanceAt_iff.mp ⟨i, rfl⟩, hbelow, hn i hi⟩
    · rw [hdistance, hfind]
      omega
  · have hroot : heightOf node.mapBlockIndex genesis = 0 := h.receiverTree.graded.height_root
    refine ⟨genesis, hblock ?_, found_genesis h hlt hbefore, fun hexact => ?_, fun hentry => ?_⟩
    · rw [hfind, List.getElem?_append_right (by rw [length_entries])]
      simp [length_entries]
    · -- the distance of the last entry exceeds the height
      rw [hdistance, hfind, hroot] at hexact
      omega
    · obtain ⟨d, hd, hle, hheight⟩ := hentry
      obtain ⟨i, rfl⟩ := exists_distanceAt_iff.mpr hd
      have hi : i < n := distanceAt_strictMono.lt_iff_lt.mp (by omega)
      have := hbefore i hi
      omega

/-- `Set` ends, and whatever locator it builds, the receiver finds a block close to the fork and its
distance from `t`. -/
structure Synchronises (genesis : Uint256) (sender : BlockMap) (t : Uint256) (node : Node) (tip c : Uint256) :
    Prop where
  terminates : ∃ fuel locator, set genesis sender fuel (some t) = some locator
  found : ∀ fuel locator, set genesis sender fuel (some t) = some locator → ∃ b,
    getBlockIndex node locator = some b ∧ Found sender t node tip c b ∧
      getDistanceBack node locator = heightOf sender t - heightOf node.mapBlockIndex b

/-- All holds but the distance, and that holds if the locator has an entry below the fork. -/
theorem locator_synchronises_iff (h : Peers genesis sender t node tip) (hc : LastCommon sender t node tip c) :
    Synchronises genesis sender t node tip c ↔ HasEntryBelow sender t c := by
  obtain ⟨_, -, -, ⟨fuel, hset⟩, -⟩ := set_spec h.tree h.mem
  constructor
  · rintro ⟨-, hfound⟩
    obtain ⟨b, hb, hcommon, hdistance⟩ := hfound fuel _ hset
    obtain ⟨b', hb', -, hiff⟩ := locator_found h hc hset
    obtain rfl := Option.some.inj (hb.symm.trans hb')
    exact hiff.mp hdistance
  · intro hentry
    refine ⟨⟨fuel, _, hset⟩, fun fuel locator hlocator => ?_⟩
    obtain ⟨b, hb, hfound, hiff⟩ := locator_found h hc hlocator
    exact ⟨b, hb, hfound, hiff.mpr hentry⟩

end

end CBlockLocator

/-! ### A receiver with the genesis block only -/

def lineIndex (n k : Nat) : CBlockIndex where
  hashBlock := 100 + k
  pprev := if k = 0 then none else some (99 + k)
  pnext := if k < n then some (101 + k) else none
  nHeight := k

def lineMap (n : Nat) : BlockMap := fun (h : Nat) =>
  if 100 ≤ h ∧ h ≤ 100 + n then some (lineIndex n (h - 100)) else none

def lineNode (n : Nat) : Node :=
  { sampleNode [] with
    mapBlockIndex := lineMap n
    pindexGenesisBlock := some 100
    pindexBest := some (100 + n) }

theorem lineMap_height {n k : Nat} (hk : k ≤ n) : lineMap n (100 + k) = some (lineIndex n k) := by
  have hmem : 100 ≤ 100 + k ∧ 100 + k ≤ 100 + n := by omega
  rw [lineMap, if_pos hmem, Nat.add_sub_cancel_left]

theorem exists_of_lineMap {n h : Nat} {e : CBlockIndex} (he : lineMap n h = some e) :
    ∃ k ≤ n, h = 100 + k ∧ e = lineIndex n k := by
  unfold lineMap at he
  split_ifs at he with hh
  exact ⟨h - 100, by omega, by omega, (Option.some.inj he).symm⟩

theorem indexTree_lineMap (n : Nat) : IndexTree (lineMap n) 100 := by
  refine ⟨fun he => ?_, ⟨lineIndex n 0, lineMap_height (Nat.zero_le n), rfl, rfl⟩, fun he hne => ?_⟩
  · obtain ⟨k, -, rfl, rfl⟩ := exists_of_lineMap he
    rfl
  · obtain ⟨k, hk, rfl, rfl⟩ := exists_of_lineMap he
    cases k with
    | zero => exact absurd rfl hne
    | succ j =>
      refine ⟨100 + j, lineIndex n j, ?_, lineMap_height (Nat.le_of_succ_le hk), rfl⟩
      have hsucc : 99 + (j + 1) = 100 + j := by omega
      show some (99 + (j + 1)) = some (100 + j)
      rw [hsucc]

namespace CBlockLocator

theorem ancestor_lineNode_iff {b : Uint256} : Ancestor (parentOf (lineNode 0).mapBlockIndex) 100 b ↔ b = 100 := by
  constructor
  · intro h
    exact (eq_of_ancestor_root rfl h).symm
  · rintro rfl
    exact ancestor_refl 100

theorem peers_line (n : Nat) : Peers 100 (lineMap n) (100 + n) (lineNode 0) 100 where
  tree := indexTree_lineMap n
  mem := mem_indexed (lineMap_height le_rfl)
  receiverTree := indexTree_lineMap 0
  receiverMem := (rfl : ((lineNode 0).mapBlockIndex 100).isSome = true)
  follows := by
    intro b m
    rw [ancestor_lineNode_iff]
    constructor
    · intro hb
      obtain ⟨e, he, hnext⟩ := Option.bind_eq_some_iff.mp hb
      obtain ⟨k, hk, rfl, rfl⟩ := exists_of_lineMap he
      obtain rfl := Nat.le_zero.mp hk
      cases hnext
    · rintro ⟨hparent, rfl⟩
      cases hparent
  best := rfl
  agree := by
    intro b _ hb
    obtain ⟨e, he⟩ := exists_of_mem_indexed hb
    obtain ⟨k, hk, rfl, rfl⟩ := exists_of_lineMap he
    obtain rfl := Nat.le_zero.mp hk
    rw [parentOf_eq (lineMap_height (Nat.zero_le n)), parentOf_eq he]
    rfl

theorem lastCommon_line (n : Nat) : LastCommon (lineMap n) (100 + n) (lineNode 0) 100 100 where
  common := ⟨(peers_line n).tree.graded.ancestor_root (peers_line n).mem, ancestor_refl 100⟩
  last := by
    rintro b ⟨-, hb⟩
    rw [ancestor_lineNode_iff.mp hb]

theorem locator_synchronises_five : Synchronises 100 (lineMap 5) 105 (lineNode 0) 100 100 := by
  refine (locator_synchronises_iff (peers_line 5) (lastCommon_line 5)).mpr ⟨5, .inl (by decide), ?_, ?_⟩
  · decide
  · decide

/-- From the height 12 the genesis block is taken to be 13 blocks back. -/
theorem locator_oversteps : ¬Synchronises 100 (lineMap 12) 112 (lineNode 0) 100 100 := by
  rintro ⟨-, hfound⟩
  obtain ⟨b, -, -, hdistance⟩ := hfound 20
    ⟨[112, 111, 110, 109, 108, 107, 106, 105, 104, 103, 102, 101, 100]⟩ (by decide)
  have hback : getDistanceBack (lineNode 0)
      ⟨[112, 111, 110, 109, 108, 107, 106, 105, 104, 103, 102, 101, 100]⟩ = 13 := by decide
  have hheight : heightOf (lineMap 12) 112 = 12 := by decide
  omega

end CBlockLocator

end Sphinx
