import Mathlib.Data.Nat.Pairing
import Sphinx.Primitives.Block
import Sphinx.Util.Merkle

/-!
# The merkle tree of a block

The flat array `vMerkleTree` holds the rows of the tree one after the other (`merkleTree_eq`).

* `checkMerkleBranch_getMerkleBranch`: the branch of a transaction leads to the root;
* `buildMerkleTree_inj`: the root pins the transaction hashes, if no two of them are equal.
-/

namespace Sphinx.CBlock

open Merkle

variable {hash2 : Uint256 → Uint256 → Uint256}
variable {hashes : List Uint256}

theorem getD_append_add (pre row : List Uint256) (i : Nat) :
    (pre ++ row).getD (pre.length + i) 0 = row.getD i 0 := by
  rw [List.getD_eq_getElem?_getD, List.getD_eq_getElem?_getD, List.getElem?_append_right (by omega)]
  congr 2
  omega

theorem merkleRow_eq (hash2 : Uint256 → Uint256 → Uint256) (pre row : List Uint256) :
    merkleRow hash2 (pre ++ row) pre.length row.length = rowUp hash2 row := by
  apply List.ext_getElem
  · simp [merkleRow, length_rowUp]
  · intro p hp hp'
    have hlt : p < (row.length + 1) / 2 := by rwa [length_rowUp] at hp'
    have hrow := getD_rowUp hash2 0 row hlt
    rw [List.getD_eq_getElem _ _ hp'] at hrow
    rw [hrow]
    simp only [merkleRow, List.getElem_map, List.getElem_range, getD_append_add]

/-- The rows of the tree, from the leaves up. -/
def rows (hash2 : Uint256 → Uint256 → Uint256) (k : Nat) (row : List Uint256) : List Uint256 :=
  (List.range (k + 1)).flatMap fun j => (rowUp hash2)^[j] row

theorem rows_zero (row : List Uint256) : rows hash2 0 row = row := by simp [rows]

theorem rows_succ (k : Nat) (row : List Uint256) :
    rows hash2 (k + 1) row = row ++ rows hash2 k (rowUp hash2 row) := by
  rw [rows, List.range_succ_eq_map, List.flatMap_cons, List.flatMap_map]
  rfl

theorem le_one_of_clog {n : Nat} (h : Nat.clog 2 n = 0) : n ≤ 1 := by
  by_contra hn
  rw [clog_succ (by omega)] at h
  omega

theorem one_lt_of_clog {n k : Nat} (h : Nat.clog 2 n = k + 1) : 1 < n := by
  by_contra hn
  rw [Nat.clog_of_right_le_one (by omega)] at h
  omega

theorem clog_half {n k : Nat} (h : Nat.clog 2 n = k + 1) : Nat.clog 2 ((n + 1) / 2) = k := by
  rw [clog_succ (one_lt_of_clog h)] at h
  omega

theorem clog_le_self (n : Nat) : Nat.clog 2 n ≤ n :=
  Nat.clog_le_of_le_pow Nat.lt_two_pow_self.le

theorem merkleLoop_eq (k : Nat) : ∀ (fuel : Nat) (pre row : List Uint256),
    Nat.clog 2 row.length = k → k ≤ fuel →
    merkleLoop hash2 fuel (pre ++ row) pre.length row.length = pre ++ rows hash2 k row := by
  induction k with
  | zero =>
    intro fuel pre row hk _
    have hle : ¬ 1 < row.length := by
      have := le_one_of_clog hk
      omega
    rw [rows_zero]
    cases fuel with
    | zero => rfl
    | succ fuel => rw [merkleLoop, if_neg hle]
  | succ k ih =>
    intro fuel pre row hk hfuel
    obtain ⟨fuel, rfl⟩ : ∃ f, fuel = f + 1 := ⟨fuel - 1, by omega⟩
    have hlen : (pre ++ row).length = pre.length + row.length := List.length_append
    rw [merkleLoop, if_pos (one_lt_of_clog hk), merkleRow_eq, ← hlen, ← length_rowUp hash2 row,
      ih fuel (pre ++ row) (rowUp hash2 row) (by rw [length_rowUp]; exact clog_half hk) (by omega),
      rows_succ, List.append_assoc]

theorem merkleTree_eq (hash2 : Uint256 → Uint256 → Uint256) (hashes : List Uint256) :
    merkleTree hash2 hashes = rows hash2 (Nat.clog 2 hashes.length) hashes :=
  merkleLoop_eq _ hashes.length [] hashes rfl (clog_le_self _)

theorem iterate_eq_root (hne : hashes ≠ []) :
    (rowUp hash2)^[Nat.clog 2 hashes.length] hashes = [buildMerkleTree hash2 hashes] := by
  obtain ⟨r, hr⟩ := List.length_eq_one_iff.mp (length_iterate_clog hash2 _ hashes hne rfl)
  have hroot : buildMerkleTree hash2 hashes = r := by
    show (merkleTree hash2 hashes).getLastD 0 = r
    rw [merkleTree_eq, rows, List.range_succ, List.flatMap_append, List.flatMap_singleton, hr]
    simp
  rw [hr, hroot]

theorem mem_merkleTree_iff {x : Uint256} :
    x ∈ merkleTree hash2 hashes ↔
      ∃ j, j ≤ Nat.clog 2 hashes.length ∧ x ∈ (rowUp hash2)^[j] hashes := by
  simp only [merkleTree_eq, rows, List.mem_flatMap, List.mem_range, Nat.lt_succ_iff]

/-! ### Branches -/

theorem merkleBranchLoop_eq (k : Nat) : ∀ (fuel : Nat) (pre row : List Uint256) (i : Nat),
    Nat.clog 2 row.length = k → k ≤ fuel →
    merkleBranchLoop (pre ++ rows hash2 k row) fuel pre.length row.length i =
      branch hash2 0 k row i := by
  induction k with
  | zero =>
    intro fuel pre row i hk _
    have hle : ¬ 1 < row.length := by
      have := le_one_of_clog hk
      omega
    cases fuel with
    | zero => rfl
    | succ fuel =>
      rw [merkleBranchLoop, if_neg hle]
      rfl
  | succ k ih =>
    intro fuel pre row i hk hfuel
    obtain ⟨fuel, rfl⟩ : ∃ f, fuel = f + 1 := ⟨fuel - 1, by omega⟩
    have hlt := one_lt_of_clog hk
    have hlen : (pre ++ row).length = pre.length + row.length := List.length_append
    have hsibling : (pre ++ (row ++ rows hash2 k (rowUp hash2 row))).getD
        (pre.length + min (i ^^^ 1) (row.length - 1)) 0 =
        row.getD (min (i ^^^ 1) (row.length - 1)) 0 := by
      rw [getD_append_add]
      exact List.getD_append _ _ _ _ (by omega)
    rw [merkleBranchLoop, if_pos hlt, rows_succ, hsibling, branch, ← List.append_assoc, ← hlen,
      ← length_rowUp hash2 row,
      ih fuel (pre ++ row) (rowUp hash2 row) (i / 2) (by rw [length_rowUp]; exact clog_half hk)
        (by omega)]

theorem checkBranchLoop_eq (branch : List Uint256) : ∀ (hash : Uint256) (i : Nat),
    checkBranchLoop hash2 hash branch i = climb hash2 hash branch i := by
  induction branch with
  | nil => exact fun _ _ => rfl
  | cons otherside rest ih =>
    intro hash i
    have hdiv : (i : Int) / 2 = ((i / 2 : Nat) : Int) := by omega
    have hmod : (i : Int) % 2 = 1 ↔ i % 2 = 1 := by omega
    rw [checkBranchLoop, climb, hdiv, ih, combine]
    simp only [hmod]

/-- **Merkle proofs verify.**  The tree is either still to be built or the tree of the block. -/
theorem checkMerkleBranch_getMerkleBranch (hash2 : Uint256 → Uint256 → Uint256)
    (getHash : CTransaction → Uint256) (block : CBlock) {vMerkleTree : List Uint256}
    (htree : vMerkleTree = [] ∨ vMerkleTree = merkleTree hash2 (block.vtx.map getHash)) {i : Nat}
    (hi : i < block.vtx.length) :
    checkMerkleBranch hash2 (getHash (block.vtx.get ⟨i, hi⟩))
        (getMerkleBranch hash2 vMerkleTree (block.vtx.map getHash) i) i =
      buildMerkleTree hash2 (block.vtx.map getHash) := by
  have hhash : getHash (block.vtx.get ⟨i, hi⟩) = (block.vtx.map getHash).getD i 0 := by
    rw [List.getD_eq_getElem _ _ (by rw [List.length_map]; exact hi), List.getElem_map]
    rfl
  have hi' : i < (block.vtx.map getHash).length := by rw [List.length_map]; exact hi
  rw [hhash]
  generalize block.vtx.map getHash = hashes at htree hi'
  have hne : hashes ≠ [] := List.ne_nil_of_length_pos (by omega)
  have hbranch : getMerkleBranch hash2 vMerkleTree hashes i =
      branch hash2 0 (Nat.clog 2 hashes.length) hashes i := by
    have htree' : (if vMerkleTree.isEmpty then merkleTree hash2 hashes else vMerkleTree) =
        merkleTree hash2 hashes := by
      rcases htree with rfl | rfl
      · rfl
      · split <;> rfl
    rw [getMerkleBranch, htree', merkleTree_eq]
    exact merkleBranchLoop_eq _ hashes.length [] hashes i rfl (clog_le_self _)
  have hpow : i / 2 ^ Nat.clog 2 hashes.length = 0 :=
    Nat.div_eq_of_lt (lt_of_lt_of_le hi' (Nat.le_pow_clog (by omega) _))
  rw [checkMerkleBranch, if_neg (by omega), hbranch, checkBranchLoop_eq,
    climb_branch hash2 0 _ hashes i hi', hpow, iterate_eq_root hne]
  rfl

def timedTxs : List CTransaction := [1, 2, 3].map fun nTime => { nTime := nTime, vin := [], vout := [] }

/-- The third leaf of a tree with a row of odd length. -/
theorem checkMerkleBranch_timedTxs :
    checkMerkleBranch (fun a b => 10 * a + b) 3
      (getMerkleBranch (fun a b => 10 * a + b) [] (timedTxs.map CTransaction.nTime) 2) 2 = 153 :=
  checkMerkleBranch_getMerkleBranch (fun a b => 10 * a + b) CTransaction.nTime
    { hashPrevBlock := 0, nTime := 0, vtx := timedTxs } (.inl rfl) (i := 2) (by decide)

/-! ### The root pins the leaves -/

/-- The nodes of the tree above the leaves. -/
def innerNodes (hash2 : Uint256 → Uint256 → Uint256) (hashes : List Uint256) : List Uint256 :=
  (merkleTree hash2 hashes).drop hashes.length

theorem mem_innerNodes {x : Uint256} {j : Nat} (hj : 0 < j) (hle : j ≤ Nat.clog 2 hashes.length)
    (hx : x ∈ (rowUp hash2)^[j] hashes) :
    x ∈ innerNodes hash2 hashes := by
  obtain ⟨k, hk⟩ : ∃ k, Nat.clog 2 hashes.length = k + 1 := ⟨Nat.clog 2 hashes.length - 1, by omega⟩
  rw [innerNodes, merkleTree_eq, hk, rows_succ, List.drop_left, rows, List.mem_flatMap]
  obtain ⟨j, rfl⟩ : ∃ i, j = i + 1 := ⟨j - 1, by omega⟩
  exact ⟨j, List.mem_range.mpr (by omega), hx⟩

/-- With equal roots, the lower tree is as high as the other one: otherwise a leaf would be an inner
node. -/
theorem alike_of_root_eq {l l' : List Uint256} (hne : l ≠ []) (hne' : l' ≠ [])
    (hinj : PairInjOn hash2 {x | x ∈ merkleTree hash2 l ∨ x ∈ merkleTree hash2 l'})
    (hleaf : ∀ t ∈ l, t ∉ innerNodes hash2 l')
    (hroot : buildMerkleTree hash2 l = buildMerkleTree hash2 l')
    (hle : Nat.clog 2 l.length ≤ Nat.clog 2 l'.length) : Alike l l' := by
  obtain ⟨m, hm⟩ : ∃ m, Nat.clog 2 l'.length = Nat.clog 2 l.length + m :=
    ⟨Nat.clog 2 l'.length - Nat.clog 2 l.length, by omega⟩
  have halike : Alike l ((rowUp hash2)^[m] l') := by
    refine alike_of_iterate hinj (Nat.clog 2 l.length) (fun j hj x hx => ?_) (fun j hj x hx => ?_) ?_
    · exact .inl (mem_merkleTree_iff.mpr ⟨j, by omega, hx⟩)
    · rw [← Function.iterate_add_apply] at hx
      exact .inr (mem_merkleTree_iff.mpr ⟨j + m, by omega, hx⟩)
    · rw [← Function.iterate_add_apply, ← hm, iterate_eq_root hne, iterate_eq_root hne', hroot]
  cases m with
  | zero => exact halike
  | succ m =>
    obtain ⟨t, ht⟩ := List.exists_mem_of_ne_nil l hne
    exact absurd (mem_innerNodes (by omega) (by omega) ((halike.2 t).mp ht)) (hleaf t ht)

/-- **The root pins the transaction hashes** of lists of transactions as `CheckBlock` lets them pass:
not empty, and with no two equal hashes.  The hash of pairs is injective on the nodes of the two trees,
and no transaction hash is an inner node of the other tree. -/
theorem buildMerkleTree_inj (hash2 : Uint256 → Uint256 → Uint256) (getHash : CTransaction → Uint256)
    {vtx vtx' : List CTransaction} (hne : vtx ≠ []) (hne' : vtx' ≠ [])
    (hnodup : (vtx.map getHash).Nodup) (hnodup' : (vtx'.map getHash).Nodup)
    (hinj : PairInjOn hash2 {x | x ∈ merkleTree hash2 (vtx.map getHash) ∨
      x ∈ merkleTree hash2 (vtx'.map getHash)})
    (hleaf : ∀ t ∈ vtx.map getHash, t ∉ innerNodes hash2 (vtx'.map getHash))
    (hleaf' : ∀ t ∈ vtx'.map getHash, t ∉ innerNodes hash2 (vtx.map getHash))
    (hroot : buildMerkleTree hash2 (vtx.map getHash) = buildMerkleTree hash2 (vtx'.map getHash)) :
    vtx.map getHash = vtx'.map getHash := by
  have hne : vtx.map getHash ≠ [] := by simpa using hne
  have hne' : vtx'.map getHash ≠ [] := by simpa using hne'
  generalize vtx.map getHash = l at *
  generalize vtx'.map getHash = l' at *
  rcases le_total (Nat.clog 2 l.length) (Nat.clog 2 l'.length) with hle | hle
  · exact (alike_of_root_eq hne hne' hinj hleaf hroot hle).eq hnodup hnodup'
  · have hinj' : PairInjOn hash2 {x | x ∈ merkleTree hash2 l' ∨ x ∈ merkleTree hash2 l} := by
      simpa only [or_comm] using hinj
    exact ((alike_of_root_eq hne' hne hinj' hleaf' hroot.symm hle).eq hnodup' hnodup).symm

/-- A hash of pairs without collisions, and three transactions with hashes below its values. -/
theorem buildMerkleTree_inj_timedTxs :
    timedTxs.map CTransaction.nTime =
      (timedTxs.map fun tx => { tx with nLockTime := 1 }).map CTransaction.nTime := by
  refine buildMerkleTree_inj (fun a b => Nat.pair a b + 10) CTransaction.nTime (by decide) (by decide)
    (by decide) (by decide) ?_ (by decide) (by decide) rfl
  intro a _ b _ c _ d _ heq
  exact Nat.pair_eq_pair.mp (Nat.add_right_cancel heq)

end Sphinx.CBlock
