import Sphinx.Equiv.IxQuorum
import Sphinx.Util.KeepBest

/-!
# Ranks

The rank of a masternode is its position among the scores, of which only the low 32 bits are compared.

* `rank_getElem`: in every order the ranks are 1, 2, … (`ranks_perm`);
* `rankingAgrees_iff`: they do not depend on the order of the list exactly when no two of the masternodes
  that are ranked have the same low 32 bits.
-/

namespace Sphinx

open SortByKey

variable {env : Env} {hash1 : Uint256 → Uint256} {hash : Uint256} {minProtocol nBlockHeight : Int}
  {vMasternodes l : List CMasternode} {mn mn' : CMasternode}

/-- The masternodes that are ranked. -/
def ranked (vMasternodes : List CMasternode) (minProtocol : Int) : List CMasternode :=
  vMasternodes.filter fun mn => minProtocol ≤ mn.protocolVersion && mn.fEnabled

/-- The low 32 bits of the score. -/
def rankScore (env : Env) (hash1 : Uint256 → Uint256) (hash : Uint256) (mn : CMasternode) : Nat :=
  mn.calculateScore env hash1 hash % 2 ^ 32

/-- The list of a node, the hashes that it knows, and how its library sorts. -/
structure Ranker where
  node : Node
  mapCacheBlockHashes : StdMap Int Uint256
  vMasternodes : List CMasternode
  sort : ScoreSort
  sortMN : ScoreSortMN

namespace Ranker

variable (env hash1) (r : Ranker)

def rank (vin : CTxIn) (nBlockHeight minProtocol : Int) : Int :=
  getMasternodeRank env hash1 r.sort r.node r.mapCacheBlockHashes r.vMasternodes vin nBlockHeight minProtocol

def ranks (nBlockHeight minProtocol : Int) : List (Int × CMasternode) :=
  getMasternodeRanks env hash1 r.sortMN r.node r.mapCacheBlockHashes r.vMasternodes nBlockHeight minProtocol

def byRank (nRank nBlockHeight minProtocol : Int) : Option CMasternode :=
  getMasternodeByRank env hash1 r.sort r.node r.mapCacheBlockHashes r.vMasternodes nRank nBlockHeight
    minProtocol

/-- The node knows the hash of the block, and its list holds the masternodes in some order. -/
structure Knows (r : Ranker) (nBlockHeight : Int) (hash : Uint256) (vMasternodes : List CMasternode) : Prop where
  hash : (getBlockHash r.node r.mapCacheBlockHashes nBlockHeight).1 = some hash
  perm : r.vMasternodes.Perm vMasternodes

/-- The scores that the ranks are read from. -/
def scores (hash : Uint256) (minProtocol : Int) : List (Nat × CTxIn) :=
  masternodeScores env hash1 r.sort r.vMasternodes hash minProtocol

end Ranker

/-- What all nodes that hold the masternodes in some order say about their ranks. -/
structure RankingAgrees (env : Env) (hash1 : Uint256 → Uint256) (nBlockHeight minProtocol : Int)
    (hash : Uint256) (vMasternodes : List CMasternode) : Prop where
  same : ∀ r r' : Ranker, r.Knows nBlockHeight hash vMasternodes → r'.Knows nBlockHeight hash vMasternodes →
    ∀ mn ∈ ranked vMasternodes minProtocol,
      r.rank env hash1 mn.vin nBlockHeight minProtocol = r'.rank env hash1 mn.vin nBlockHeight minProtocol
  bijective : ∀ r : Ranker, r.Knows nBlockHeight hash vMasternodes →
    ((ranked vMasternodes minProtocol).map fun mn => r.rank env hash1 mn.vin nBlockHeight minProtocol).Perm
      ((List.range (ranked vMasternodes minProtocol).length).map fun i : Nat => (i : Int) + 1)
  byRank : ∀ r : Ranker, r.Knows nBlockHeight hash vMasternodes → ∀ mn ∈ ranked vMasternodes minProtocol,
    r.byRank env hash1 (r.rank env hash1 mn.vin nBlockHeight minProtocol) nBlockHeight minProtocol = some mn
  ranks : ∀ r r' : Ranker, r.Knows nBlockHeight hash vMasternodes → r'.Knows nBlockHeight hash vMasternodes →
    r.ranks env hash1 nBlockHeight minProtocol = r'.ranks env hash1 nBlockHeight minProtocol
  ranks_rank : ∀ r : Ranker, r.Knows nBlockHeight hash vMasternodes →
    ∀ x ∈ r.ranks env hash1 nBlockHeight minProtocol,
      x.1 = r.rank env hash1 x.2.vin nBlockHeight minProtocol

/-! ### One node -/

theorem ranked_perm (h : l.Perm vMasternodes) (minProtocol : Int) :
    (ranked l minProtocol).Perm (ranked vMasternodes minProtocol) := h.filter _

theorem nodup_vin (h : (vMasternodes.map fun mn => mn.vin.prevout).Nodup) :
    ((ranked vMasternodes minProtocol).map CMasternode.vin).Nodup := by
  have hvin : (vMasternodes.map CMasternode.vin).Nodup := by
    refine List.Nodup.of_map CTxIn.prevout ?_
    rw [List.map_map]
    exact h
  exact hvin.sublist (List.filter_sublist.map _)

section

variable {r : Ranker} (hr : r.Knows nBlockHeight hash vMasternodes)

include hr

theorem scores_perm : (r.scores env hash1 hash minProtocol).Perm
    ((ranked vMasternodes minProtocol).map fun mn => (rankScore env hash1 hash mn, mn.vin)) :=
  (r.sort.perm _).trans ((ranked_perm hr.perm minProtocol).map _)

theorem nodup_scores (h : (vMasternodes.map fun mn => mn.vin.prevout).Nodup) :
    ((r.scores env hash1 hash minProtocol).map Prod.snd).Nodup := by
  refine (((scores_perm hr).map Prod.snd).nodup_iff).mpr ?_
  rw [List.map_map]
  exact nodup_vin h

theorem rank_of_findIdx? {vin : CTxIn} {i : Nat}
    (hi : ((r.scores env hash1 hash minProtocol).findIdx? fun s => s.2 = vin) = some i) :
    r.rank env hash1 vin nBlockHeight minProtocol = i + 1 := by
  simp only [Ranker.scores] at hi
  simp only [Ranker.rank, getMasternodeRank, hr.hash, hi]

section

variable (h : (vMasternodes.map fun mn => mn.vin.prevout).Nodup)

include h

theorem map_rank_scores :
    (r.scores env hash1 hash minProtocol).map (fun s => r.rank env hash1 s.2 nBlockHeight minProtocol) =
      (List.range (r.scores env hash1 hash minProtocol).length).map fun i : Nat => (i : Int) + 1 := by
  refine List.ext_getElem (by simp) fun i hi _ => ?_
  rw [List.length_map] at hi
  rw [List.getElem_map, List.getElem_map, List.getElem_range,
    rank_of_findIdx? hr (findIdx?_getElem (nodup_scores hr h) hi)]

theorem ranks_perm :
    ((ranked vMasternodes minProtocol).map fun mn => r.rank env hash1 mn.vin nBlockHeight minProtocol).Perm
      ((List.range (ranked vMasternodes minProtocol).length).map fun i : Nat => (i : Int) + 1) := by
  have hperm : (r.scores env hash1 hash minProtocol).Perm _ := scores_perm hr
  have hlen : (r.scores env hash1 hash minProtocol).length = (ranked vMasternodes minProtocol).length := by
    rw [hperm.length_eq, List.length_map]
  rw [← hlen, ← map_rank_scores hr h]
  have hmap := hperm.map fun s => r.rank env hash1 s.2 nBlockHeight minProtocol
  rw [List.map_map] at hmap
  exact hmap.symm

theorem findMasternode_eq (hmn : mn ∈ vMasternodes) :
    findMasternode r.vMasternodes mn.vin = some mn := by
  cases hfind : findMasternode r.vMasternodes mn.vin with
  | none =>
    have hnone := List.find?_eq_none.mp hfind mn (hr.perm.mem_iff.mpr hmn)
    simp at hnone
  | some mn' =>
    have hprevout := List.find?_some hfind
    simp only [decide_eq_true_eq] at hprevout
    rw [List.inj_on_of_nodup_map h (hr.perm.mem_iff.mp (List.mem_of_find?_eq_some hfind)) hmn hprevout]

/-- The masternode with the rank of a masternode is the masternode itself. -/
theorem byRank_rank
    (hmn : mn ∈ ranked vMasternodes minProtocol) :
    r.byRank env hash1 (r.rank env hash1 mn.vin nBlockHeight minProtocol) nBlockHeight minProtocol =
      some mn := by
  have hmem : (rankScore env hash1 hash mn, mn.vin) ∈ r.scores env hash1 hash minProtocol :=
    (scores_perm hr).mem_iff.mpr (List.mem_map_of_mem hmn)
  obtain ⟨i, hi, hat⟩ := exists_findIdx? (nodup_scores hr h) hmem
  rw [rank_of_findIdx? hr hi]
  have hpos : (0 : Int) < i + 1 := by omega
  have hindex : ((i : Int) + 1 - 1).toNat = i := by omega
  simp only [Ranker.scores] at hat
  simp only [Ranker.byRank, getMasternodeByRank, hr.hash, hpos, if_true, hindex, hat, Option.bind_some]
  exact findMasternode_eq hr h (List.mem_of_mem_filter hmn)

end

end

/-! ### Different scores -/

/-- No two masternodes that are ranked have the same low 32 bits. -/
def DistinctScores (env : Env) (hash1 : Uint256 → Uint256) (hash : Uint256) (minProtocol : Int)
    (vMasternodes : List CMasternode) : Prop :=
  ∀ mn ∈ ranked vMasternodes minProtocol, ∀ mn' ∈ ranked vMasternodes minProtocol,
    rankScore env hash1 hash mn = rankScore env hash1 hash mn' → mn = mn'

/-- The masternodes with their scores, sorted. -/
def Ranker.scoresMN (env : Env) (hash1 : Uint256 → Uint256) (r : Ranker) (hash : Uint256)
    (minProtocol : Int) : List (Nat × CMasternode) :=
  r.sortMN.sort ((ranked r.vMasternodes minProtocol).map fun mn => (rankScore env hash1 hash mn, mn))

section

variable {r r' : Ranker} (hr : r.Knows nBlockHeight hash vMasternodes)
  (hdistinct : DistinctScores env hash1 hash minProtocol vMasternodes)

include hr

theorem scoresMN_perm : (r.scoresMN env hash1 hash minProtocol).Perm
    ((ranked vMasternodes minProtocol).map fun mn => (rankScore env hash1 hash mn, mn)) :=
  (r.sortMN.perm _).trans ((ranked_perm hr.perm minProtocol).map _)

theorem ranks_eq : r.ranks env hash1 nBlockHeight minProtocol =
    (r.scoresMN env hash1 hash minProtocol).zipIdx.map fun (s, i) => ((i : Int) + 1, s.2) := by
  simp only [Ranker.ranks, getMasternodeRanks, hr.hash]
  rfl

include hdistinct

theorem scores_eq (hr' : r'.Knows nBlockHeight hash vMasternodes) :
    r.scores env hash1 hash minProtocol = r'.scores env hash1 hash minProtocol := by
  refine eq_of_sorted ((scores_perm hr).trans (scores_perm hr').symm) (r.sort.sorted _) (r'.sort.sorted _)
    fun a ha b hb hab => ?_
  obtain ⟨mn, hmn, rfl⟩ := List.mem_map.mp ((scores_perm hr).mem_iff.mp ha)
  obtain ⟨mn', hmn', rfl⟩ := List.mem_map.mp ((scores_perm hr).mem_iff.mp hb)
  rw [hdistinct mn hmn mn' hmn' hab]

theorem scoresMN_eq (hr' : r'.Knows nBlockHeight hash vMasternodes) :
    r.scoresMN env hash1 hash minProtocol = r'.scoresMN env hash1 hash minProtocol := by
  refine eq_of_sorted ((scoresMN_perm hr).trans (scoresMN_perm hr').symm) (r.sortMN.sorted _)
    (r'.sortMN.sorted _) fun a ha b hb hab => ?_
  obtain ⟨mn, hmn, rfl⟩ := List.mem_map.mp ((scoresMN_perm hr).mem_iff.mp ha)
  obtain ⟨mn', hmn', rfl⟩ := List.mem_map.mp ((scoresMN_perm hr).mem_iff.mp hb)
  rw [hdistinct mn hmn mn' hmn' hab]

theorem map_scoresMN : (r.scoresMN env hash1 hash minProtocol).map (fun s => (s.1, s.2.vin)) =
    r.scores env hash1 hash minProtocol := by
  have hscores : (r.scoresMN env hash1 hash minProtocol).Perm _ := scoresMN_perm hr
  have hperm := hscores.map fun s => (s.1, s.2.vin)
  rw [List.map_map] at hperm
  have hsorted : Descending ((r.scoresMN env hash1 hash minProtocol).map fun s => (s.1, s.2.vin)) :=
    List.pairwise_map.mpr (r.sortMN.sorted _)
  refine eq_of_sorted (hperm.trans (scores_perm hr).symm) hsorted (r.sort.sorted _) fun a ha b hb hab => ?_
  obtain ⟨mn, hmn, rfl⟩ := List.mem_map.mp (hperm.mem_iff.mp ha)
  obtain ⟨mn', hmn', rfl⟩ := List.mem_map.mp (hperm.mem_iff.mp hb)
  rw [hdistinct mn hmn mn' hmn' hab]

theorem ranks_rank (h : (vMasternodes.map fun mn => mn.vin.prevout).Nodup) {x : Int × CMasternode}
    (hx : x ∈ r.ranks env hash1 nBlockHeight minProtocol) :
    x.1 = r.rank env hash1 x.2.vin nBlockHeight minProtocol := by
  rw [ranks_eq hr] at hx
  obtain ⟨⟨s, i⟩, hs, rfl⟩ := List.mem_map.mp hx
  have hat := List.mem_zipIdx_iff_getElem?.mp hs
  have hat' : (r.scores env hash1 hash minProtocol)[i]? = some (s.1, s.2.vin) := by
    rw [← map_scoresMN hr hdistinct, List.getElem?_map, hat, Option.map_some]
  obtain ⟨hi, heq⟩ := List.getElem?_eq_some_iff.mp hat'
  have hfind := findIdx?_getElem (nodup_scores hr h) hi
  rw [heq] at hfind
  exact (rank_of_findIdx? hr hfind).symm

end

/-! ### Equal scores -/

/-- The sorts that leave equal scores in their order. -/
def ScoreSort.stable : ScoreSort := ⟨SortByKey.stable, stable_perm, descending_stable⟩

def ScoreSortMN.stable : ScoreSortMN := ⟨SortByKey.stable, stable_perm, descending_stable⟩

/-- Of two masternodes with the same score, the one that is listed first gets the lower rank. -/
theorem rank_lt_of_stable {node : Node} {mapCacheBlockHashes : StdMap Int Uint256}
    (hhash : (getBlockHash node mapCacheBlockHashes nBlockHeight).1 = some hash)
    (h : (vMasternodes.map fun mn => mn.vin.prevout).Nodup)
    (hperm : (mn :: mn' :: l).Perm vMasternodes)
    (hmn : mn ∈ ranked vMasternodes minProtocol) (hmn' : mn' ∈ ranked vMasternodes minProtocol)
    (heq : rankScore env hash1 hash mn = rankScore env hash1 hash mn') :
    Ranker.rank env hash1 ⟨node, mapCacheBlockHashes, mn :: mn' :: l, .stable, .stable⟩ mn.vin nBlockHeight
        minProtocol <
      Ranker.rank env hash1 ⟨node, mapCacheBlockHashes, mn :: mn' :: l, .stable, .stable⟩ mn'.vin nBlockHeight
        minProtocol := by
  have hr : Ranker.Knows ⟨node, mapCacheBlockHashes, mn :: mn' :: l, .stable, .stable⟩ nBlockHeight hash
      vMasternodes := ⟨hhash, hperm⟩
  have hranked : ranked (mn :: mn' :: l) minProtocol = mn :: mn' :: ranked l minProtocol := by
    have h1 : (decide (minProtocol ≤ mn.protocolVersion) && mn.fEnabled) = true :=
      (List.mem_filter.mp hmn).2
    have h2 : (decide (minProtocol ≤ mn'.protocolVersion) && mn'.fEnabled) = true :=
      (List.mem_filter.mp hmn').2
    simp only [ranked, List.filter_cons, h1, h2, if_true]
  have hsub : [(rankScore env hash1 hash mn, mn.vin), (rankScore env hash1 hash mn', mn'.vin)].Sublist
      (Ranker.scores env hash1 ⟨node, mapCacheBlockHashes, mn :: mn' :: l, .stable, .stable⟩ hash
        minProtocol) := by
    refine pair_sublist_stable heq ?_
    show List.Sublist _ ((ranked (mn :: mn' :: l) minProtocol).map _)
    rw [hranked]
    exact (List.nil_sublist _).cons_cons _ |>.cons_cons _
  obtain ⟨i, j, hi, hj, hlt⟩ := findIdx?_lt_of_sublist (nodup_scores hr h) hsub
  rw [rank_of_findIdx? hr hi, rank_of_findIdx? hr hj]
  omega

/-- **Ranking.**  Let the masternodes have different outpoints, and some node know the hash of the block.
All nodes that know it and hold the masternodes in some order agree on the ranks, whatever order their
library gives to equal scores, exactly when no two of the masternodes that are ranked have the same low
32 bits. -/
theorem rankingAgrees_iff {node : Node} {mapCacheBlockHashes : StdMap Int Uint256}
    (hhash : (getBlockHash node mapCacheBlockHashes nBlockHeight).1 = some hash)
    (h : (vMasternodes.map fun mn => mn.vin.prevout).Nodup) :
    RankingAgrees env hash1 nBlockHeight minProtocol hash vMasternodes ↔
      DistinctScores env hash1 hash minProtocol vMasternodes := by
  constructor
  · intro hagrees mn hmn mn' hmn' heq
    by_contra hne
    -- the two masternodes at the head of the list, in both orders
    obtain ⟨l, hperm⟩ : ∃ l, (mn :: mn' :: l).Perm vMasternodes := by
      have hmem' : mn' ∈ vMasternodes.erase mn :=
        (List.mem_erase_of_ne (Ne.symm hne)).mpr (List.mem_of_mem_filter hmn')
      exact ⟨_, ((List.perm_cons_erase (List.mem_of_mem_filter hmn)).trans
        ((List.perm_cons_erase hmem').cons mn)).symm⟩
    have hperm' : (mn' :: mn :: l).Perm vMasternodes := (List.Perm.swap _ _ _).trans hperm
    have hlt := rank_lt_of_stable hhash h hperm hmn hmn' heq
    have hlt' := rank_lt_of_stable hhash h hperm' hmn' hmn heq.symm
    have hsame := hagrees.same ⟨node, mapCacheBlockHashes, mn :: mn' :: l, .stable, .stable⟩
      ⟨node, mapCacheBlockHashes, mn' :: mn :: l, .stable, .stable⟩ ⟨hhash, hperm⟩ ⟨hhash, hperm'⟩
    rw [hsame mn hmn, hsame mn' hmn'] at hlt
    exact absurd hlt hlt'.asymm
  · intro hdistinct
    refine ⟨fun r r' hr hr' mn hmn => ?_, fun r hr => ranks_perm hr h, fun r hr mn hmn => byRank_rank hr h hmn,
      fun r r' hr hr' => ?_, fun r hr x hx => ranks_rank hr hdistinct h hx⟩
    · have hmem : (rankScore env hash1 hash mn, mn.vin) ∈ r.scores env hash1 hash minProtocol :=
        (scores_perm hr).mem_iff.mpr (List.mem_map_of_mem hmn)
      obtain ⟨i, hi, -⟩ := exists_findIdx? (nodup_scores hr h) hmem
      have hi' := hi
      rw [scores_eq hr hdistinct hr'] at hi'
      rw [rank_of_findIdx? hr hi, rank_of_findIdx? hr' hi']
    · rw [ranks_eq hr, ranks_eq hr', scoresMN_eq hr hdistinct hr']

/-! ### Scores of two masternodes -/

def masternodeAt (hash : Uint256) (n : Nat) : CMasternode :=
  ⟨⟨⟨hash, n⟩, [], uintMax⟩, minInstantXProtoVersion, true⟩

theorem quorumNode_hash : (getBlockHash quorumNode quorumCache 5).1 = some 0 := by decide

theorem rankingAgrees_two : RankingAgrees (sampleEnv []) (fun h => h) 5 minInstantXProtoVersion 0
    [masternodeAt 7 0, masternodeAt 9 0] := by
  refine (rankingAgrees_iff quorumNode_hash (by decide)).mpr ?_
  unfold DistinctScores
  decide

/-- The score is computed from the sum of the hash and the index of the collateral, so these two have the
same one. -/
theorem ranking_disagrees : ¬RankingAgrees (sampleEnv []) (fun h => h) 5 minInstantXProtoVersion 0
    [masternodeAt 7 1, masternodeAt 8 0] := by
  intro h
  have hsame := h.same
    ⟨quorumNode, quorumCache, [masternodeAt 7 1, masternodeAt 8 0], scoreSort, .stable⟩
    ⟨quorumNode, quorumCache, [masternodeAt 8 0, masternodeAt 7 1], scoreSort, .stable⟩
    ⟨quorumNode_hash, List.Perm.refl _⟩ ⟨quorumNode_hash, List.Perm.swap _ _ _⟩ (masternodeAt 7 1) (by decide)
  exact absurd hsame (by decide)

end Sphinx
