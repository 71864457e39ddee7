import Mathlib.Order.Lattice.Nat
import Sphinx.AddressGroupings
import Sphinx.Script.Equiv.Interpreter
import Sphinx.Util.Components
import Sphinx.Util.Loop

/-!
# The groups of addresses are connected components

* `mergeHits_total`: a merge frees the groups that it hits, each once, and leaves the others;
* `mergeGrouping_inv`: after every round no address is mapped to a freed group;
* `getAddressGroupings_components`: the groups, as the components of the relation "spent together".
-/

namespace Sphinx

open Relation Components

/-! ### The merge -/

namespace GroupState

variable {a : CTxDestination} {tx : CTransaction} {g : Finset CTxDestination}

/-- The groups that are allocated. -/
def blocks (st : GroupState) : Set (Finset CTxDestination) := {B | ∃ p, st.heap.lookup p = some B}

/-- The pointers to groups are those that are allocated, an address is mapped to the group that has it, and the
groups are the components of the groups seen so far. -/
structure Inv (seen : List (Finset CTxDestination)) (st : GroupState) : Prop where
  unique : ∀ p, p ∈ st.uniqueGroupings ↔ ∃ B, st.heap.lookup p = some B
  setmap : ∀ a p, st.setmap a = some p ↔ ∃ B, st.heap.lookup p = some B ∧ a ∈ B
  components : IsComponents seen st.blocks

theorem inv_empty : Inv [] {} where
  unique p := by
    refine iff_of_false (Finset.notMem_empty p) ?_
    rintro ⟨B, hB⟩
    rw [AList.lookup_empty] at hB
    cases hB
  setmap a p := by
    refine iff_of_false (Option.some_ne_none p).symm ?_
    rintro ⟨B, hB, -⟩
    rw [AList.lookup_empty] at hB
    cases hB
  components := by
    have hblocks : ({} : GroupState).blocks = ∅ := by
      refine Set.eq_empty_of_forall_notMem ?_
      rintro B ⟨p, hB⟩
      rw [AList.lookup_empty] at hB
      cases hB
    rw [hblocks]
    exact isComponents_nil

theorem nodup_hits (st : GroupState) (grouping : Finset CTxDestination) : (st.hits grouping).Nodup :=
  Finset.sort_nodup _ _

theorem mem_hits {seen : List (Finset CTxDestination)} {st : GroupState} (h : st.Inv seen)
    (grouping : Finset CTxDestination) (p : Nat) :
    p ∈ st.hits grouping ↔ ∃ B, st.heap.lookup p = some B ∧ ∃ a ∈ B, a ∈ grouping := by
  unfold hits
  rw [Finset.mem_sort, Finset.mem_biUnion]
  constructor
  · rintro ⟨a, ha, hp⟩
    obtain ⟨B, hB, haB⟩ := (h.setmap a p).mp (Option.mem_toFinset.mp hp)
    exact ⟨B, hB, a, haB, ha⟩
  · rintro ⟨B, hB, a, haB, ha⟩
    exact ⟨a, ha, Option.mem_toFinset.mpr ((h.setmap a p).mpr ⟨B, hB, haB⟩)⟩

/-- What the loop over the hits has done: `merged` has taken over the groups at `hits`, which are freed. -/
structure MergedHits (merged : Nat) (mergedGroup : Finset CTxDestination) (st : GroupState) (hits : List Nat)
    (st' : GroupState) : Prop where
  taken : ∃ M, st'.heap.lookup merged = some M ∧
    ∀ a, a ∈ M ↔ a ∈ mergedGroup ∨ ∃ p ∈ hits, ∃ B, st.heap.lookup p = some B ∧ a ∈ B
  others : ∀ p, p ≠ merged → st'.heap.lookup p = if p ∈ hits then none else st.heap.lookup p
  unique : ∀ p, p ∈ st'.uniqueGroupings ↔ p ∈ st.uniqueGroupings ∧ p ∉ hits
  setmap : st'.setmap = st.setmap

theorem MergedHits.step {merged hit : Nat} {mergedGroup hitGroup : Finset CTxDestination} {st st1 : GroupState}
    {done : List Nat} (h : MergedHits merged mergedGroup st done st1) (hhit : st.heap.lookup hit = some hitGroup)
    (hnew : hit ∉ done) (hne : hit ≠ merged) :
    ∃ st2, mergeHit merged st1 hit = some st2 ∧ MergedHits merged mergedGroup st (done ++ [hit]) st2 := by
  obtain ⟨M, hM, hmem⟩ := h.taken
  -- the group has not been freed in an earlier round
  have hhit1 : st1.heap.lookup hit = some hitGroup := by rw [h.others hit hne, if_neg hnew, hhit]
  have hstep : mergeHit merged st1 hit = some { st1 with
      heap := (st1.heap.insert merged (M ∪ hitGroup)).erase hit
      uniqueGroupings := st1.uniqueGroupings.erase hit } := by
    unfold mergeHit
    rw [hhit1, Option.bind_some, hM, Option.map_some]
  refine ⟨_, hstep, ?_, ?_, ?_, h.setmap⟩
  · refine ⟨M ∪ hitGroup, ?_, fun a => ?_⟩
    · rw [AList.lookup_erase_ne hne.symm, AList.lookup_insert]
    · rw [Finset.mem_union, hmem, or_assoc]
      refine or_congr_right ⟨?_, ?_⟩
      · rintro (⟨p, hp, B, hB, haB⟩ | ha)
        · exact ⟨p, List.mem_append_left _ hp, B, hB, haB⟩
        · exact ⟨hit, List.mem_append_right _ (List.mem_singleton.mpr rfl), hitGroup, hhit, ha⟩
      · rintro ⟨p, hp, B, hB, haB⟩
        rcases List.mem_append.mp hp with hp | hp
        · exact .inl ⟨p, hp, B, hB, haB⟩
        · obtain rfl := List.mem_singleton.mp hp
          obtain rfl : hitGroup = B := Option.some.inj (hhit.symm.trans hB)
          exact .inr haB
  · intro p hp
    by_cases hphit : p = hit
    · rw [hphit, AList.lookup_erase, if_pos (List.mem_append_right _ (List.mem_singleton.mpr rfl))]
    · rw [AList.lookup_erase_ne hphit, AList.lookup_insert_ne hp, h.others p hp]
      simp only [List.mem_append, List.mem_singleton, hphit, or_false]
  · intro p
    rw [Finset.mem_erase, h.unique, List.mem_append, List.mem_singleton, not_or]
    exact ⟨fun ⟨hne, hp, hdone⟩ => ⟨hp, hdone, hne⟩, fun ⟨hp, hdone, hne⟩ => ⟨hne, hp, hdone⟩⟩

/-- Every group that is hit is there when its round comes. -/
theorem mergeHits_total {merged : Nat} {mergedGroup : Finset CTxDestination} {st : GroupState} {hits : List Nat}
    (hmerged : st.heap.lookup merged = some mergedGroup) (hnodup : hits.Nodup)
    (hlive : ∀ p ∈ hits, p ≠ merged ∧ ∃ B, st.heap.lookup p = some B) :
    ∃ st', hits.foldlM (mergeHit merged) st = some st' ∧ MergedHits merged mergedGroup st hits st' := by
  refine Loop.foldlM_total (fun done st1 => MergedHits merged mergedGroup st done st1) ⟨?_, ?_, ?_, rfl⟩ ?_
  · refine ⟨mergedGroup, hmerged, fun a => ⟨.inl, ?_⟩⟩
    rintro (ha | ⟨p, hp, -⟩)
    · exact ha
    · exact absurd hp List.not_mem_nil
  · exact fun p _ => (if_neg List.not_mem_nil).symm
  · exact fun p => ⟨fun hp => ⟨hp, List.not_mem_nil⟩, fun hp => hp.1⟩
  · intro done hit rest st1 hsplit h
    rw [hsplit] at hnodup hlive
    obtain ⟨hne, hitGroup, hhit⟩ := hlive hit (List.mem_append_right _ List.mem_cons_self)
    exact h.step hhit (fun hmem => (List.disjoint_of_nodup_append hnodup) hmem List.mem_cons_self) hne

/-- What a round has done: the groups that the new one hits are replaced by `M`, at the address `merged`. -/
structure MergedGrouping (merged : Nat) (grouping M : Finset CTxDestination) (st st' : GroupState) : Prop where
  fresh : st.heap.lookup merged = none
  lookup_merged : st'.heap.lookup merged = some M
  lookup_other : ∀ p, p ≠ merged → st'.heap.lookup p = if p ∈ st.hits grouping then none else st.heap.lookup p
  mem : ∀ a, a ∈ M ↔ a ∈ grouping ∨ ∃ p ∈ st.hits grouping, ∃ B, st.heap.lookup p = some B ∧ a ∈ B
  unique : ∀ p, p ∈ st'.uniqueGroupings ↔ p = merged ∨ (p ∈ st.uniqueGroupings ∧ p ∉ st.hits grouping)
  setmap : ∀ a, st'.setmap a = if a ∈ M then some merged else st.setmap a

/-- No group is used after it has been freed. -/
theorem mergeGrouping_total {newGroup : GroupHeap → Nat}
    (hfresh : ∀ heap : GroupHeap, heap.lookup (newGroup heap) = none) {seen : List (Finset CTxDestination)}
    {st : GroupState} (h : st.Inv seen) (grouping : Finset CTxDestination) :
    ∃ st' M, mergeGrouping newGroup st grouping = some st' ∧
      MergedGrouping (newGroup st.heap) grouping M st st' := by
  have hold : ∀ p, p ≠ newGroup st.heap →
      (st.heap.insert (newGroup st.heap) grouping).lookup p = st.heap.lookup p :=
    fun p hp => AList.lookup_insert_ne hp
  -- the pointers that are hit were allocated before the new group
  have hlive : ∀ p ∈ st.hits grouping, p ≠ newGroup st.heap ∧ ∃ B, st.heap.lookup p = some B := by
    intro p hp
    obtain ⟨B, hB, -⟩ := (mem_hits h grouping p).mp hp
    refine ⟨?_, B, hB⟩
    rintro rfl
    rw [hfresh] at hB
    cases hB
  let st1 : GroupState := { st with heap := st.heap.insert (newGroup st.heap) grouping }
  have hlive1 : ∀ p ∈ st.hits grouping, p ≠ newGroup st.heap ∧ ∃ B, st1.heap.lookup p = some B := by
    intro p hp
    refine ⟨(hlive p hp).1, ?_⟩
    rw [hold p (hlive p hp).1]
    exact (hlive p hp).2
  obtain ⟨st2, hst2, h2⟩ := mergeHits_total (AList.lookup_insert st.heap) (st.nodup_hits grouping) hlive1
  obtain ⟨M, hM, hmem⟩ := h2.taken
  have hround : mergeGrouping newGroup st grouping = some { st2 with
      uniqueGroupings := insert (newGroup st.heap) st2.uniqueGroupings
      setmap := fun element => if element ∈ M then some (newGroup st.heap) else st2.setmap element } := by
    change ((st.hits grouping).foldlM (mergeHit (newGroup st.heap)) st1).bind _ = _
    rw [hst2, Option.bind_some, hM, Option.map_some]
  refine ⟨_, M, hround, hfresh st.heap, hM, ?_, ?_, ?_, ?_⟩
  · intro p hp
    rw [h2.others p hp, hold p hp]
  · intro a
    rw [hmem]
    refine or_congr_right (exists_congr fun p => and_congr_right fun hp => ?_)
    rw [hold p (hlive p hp).1]
  · intro p
    change p ∈ insert (newGroup st.heap) st2.uniqueGroupings ↔ _
    rw [Finset.mem_insert, h2.unique]
  · intro a
    change (if a ∈ M then some (newGroup st.heap) else st2.setmap a) = _
    rw [h2.setmap]

section Round

variable {merged : Nat} {grouping M : Finset CTxDestination} {seen : List (Finset CTxDestination)}
  {st st' : GroupState}

section

variable (h : MergedGrouping merged grouping M st st')

include h

/-- The groups that a round leaves as they are. -/
theorem MergedGrouping.lookup_iff (hinv : st.Inv seen) {p : Nat}
    (hp : p ≠ merged) (B : Finset CTxDestination) :
    st'.heap.lookup p = some B ↔ st.heap.lookup p = some B ∧ ∀ x ∈ B, x ∉ grouping := by
  rw [h.lookup_other p hp]
  by_cases hhit : p ∈ st.hits grouping
  · rw [if_pos hhit]
    obtain ⟨B', hB', x, hxB', hx⟩ := (mem_hits hinv grouping p).mp hhit
    refine iff_of_false (Option.some_ne_none B).symm ?_
    rintro ⟨hB, hnot⟩
    obtain rfl : B' = B := Option.some.inj (hB'.symm.trans hB)
    exact hnot x hxB' hx
  · rw [if_neg hhit]
    exact ⟨fun hB => ⟨hB, fun x hxB hx => hhit ((mem_hits hinv grouping p).mpr ⟨B, hB, x, hxB, hx⟩)⟩,
      And.left⟩

theorem MergedGrouping.ne_merged {p : Nat}
    {B : Finset CTxDestination} (hB : st.heap.lookup p = some B) : p ≠ merged := by
  rintro rfl
  rw [h.fresh] at hB
  cases hB

theorem MergedGrouping.isMerged (hinv : st.Inv seen) :
    IsMerged st.blocks grouping M := by
  intro a
  rw [h.mem]
  refine or_congr_right ⟨?_, ?_⟩
  · rintro ⟨p, hp, B, hB, haB⟩
    obtain ⟨B', hB', hhit⟩ := (mem_hits hinv grouping p).mp hp
    obtain rfl : B' = B := Option.some.inj (hB'.symm.trans hB)
    exact ⟨B', ⟨p, hB'⟩, hhit, haB⟩
  · rintro ⟨B, ⟨p, hB⟩, hhit, haB⟩
    exact ⟨p, (mem_hits hinv grouping p).mpr ⟨B, hB, hhit⟩, B, hB, haB⟩

theorem MergedGrouping.blocks_eq (hinv : st.Inv seen) :
    st'.blocks = addBlock st.blocks grouping M := by
  ext B
  constructor
  · rintro ⟨p, hB⟩
    by_cases hp : p = merged
    · rw [hp, h.lookup_merged] at hB
      exact .inl (Option.some.inj hB).symm
    · obtain ⟨hB, hnot⟩ := (h.lookup_iff hinv hp B).mp hB
      exact .inr ⟨⟨p, hB⟩, hnot⟩
  · rintro (rfl | ⟨⟨p, hB⟩, hnot⟩)
    · exact ⟨merged, h.lookup_merged⟩
    · exact ⟨p, (h.lookup_iff hinv (h.ne_merged hB) B).mpr ⟨hB, hnot⟩⟩

/-- The merged group takes nothing of a group that is left as it is. -/
theorem MergedGrouping.not_mem (hinv : st.Inv seen)
    {p : Nat} {B : Finset CTxDestination} (hB : st.heap.lookup p = some B)
    (hnot : ∀ x ∈ B, x ∉ grouping) (haB : a ∈ B) : a ∉ M := by
  intro ha
  rcases (h.isMerged hinv a).mp ha with ha | ⟨B', ⟨p', hB'⟩, ⟨x, hxB', hx⟩, haB'⟩
  · exact hnot a haB ha
  · -- the group that is hit would be the one that is left
    have hp' : p' = p := by
      have h1 := (hinv.setmap a p').mpr ⟨B', hB', haB'⟩
      have h2 := (hinv.setmap a p).mpr ⟨B, hB, haB⟩
      exact Option.some.inj (h1.symm.trans h2)
    rw [hp', hB] at hB'
    obtain rfl := Option.some.inj hB'
    exact hnot x hxB' hx

theorem MergedGrouping.inv (hinv : st.Inv seen)
    (hgrouping : grouping.Nonempty) : st'.Inv (seen ++ [grouping]) where
  unique p := by
    rw [h.unique]
    by_cases hp : p = merged
    · exact iff_of_true (.inl hp) ⟨M, by rw [hp, h.lookup_merged]⟩
    · rw [h.lookup_other p hp, hinv.unique, or_iff_right hp]
      by_cases hhit : p ∈ st.hits grouping
      · rw [if_pos hhit]
        exact iff_of_false (fun h => h.2 hhit) fun ⟨B, hB⟩ => Option.some_ne_none B hB.symm
      · rw [if_neg hhit, and_iff_left hhit]
  setmap a p := by
    have hM := h.isMerged hinv
    rw [h.setmap]
    by_cases hp : p = merged
    · rw [hp]
      by_cases ha : a ∈ M
      · exact iff_of_true (if_pos ha) ⟨M, h.lookup_merged, ha⟩
      · rw [if_neg ha, hinv.setmap]
        refine iff_of_false ?_ ?_
        · rintro ⟨B, hB, -⟩
          exact h.ne_merged hB rfl
        · rintro ⟨B, hB, haB⟩
          rw [h.lookup_merged] at hB
          exact ha (Option.some.inj hB ▸ haB)
    · -- an address outside of the merged group keeps its group
      constructor
      · intro hset
        by_cases ha : a ∈ M
        · rw [if_pos ha] at hset
          exact absurd (Option.some.inj hset).symm hp
        · rw [if_neg ha, hinv.setmap] at hset
          obtain ⟨B, hB, haB⟩ := hset
          refine ⟨B, (h.lookup_iff hinv hp B).mpr ⟨hB, fun x hxB hx => ha ((hM a).mpr (.inr ?_))⟩, haB⟩
          exact ⟨B, ⟨p, hB⟩, ⟨x, hxB, hx⟩, haB⟩
      · rintro ⟨B, hB, haB⟩
        obtain ⟨hB, hnot⟩ := (h.lookup_iff hinv hp B).mp hB
        rw [if_neg (h.not_mem hinv hB hnot haB)]
        exact (hinv.setmap a p).mpr ⟨B, hB, haB⟩
  components := by
    rw [h.blocks_eq hinv]
    exact hinv.components.add hgrouping (h.isMerged hinv)

end

end Round

theorem mergeGroupings_total {newGroup : GroupHeap → Nat}
    (hfresh : ∀ heap : GroupHeap, heap.lookup (newGroup heap) = none) {groupings : List (Finset CTxDestination)}
    (hgroupings : ∀ g ∈ groupings, g.Nonempty) :
    ∃ st, groupings.foldlM (mergeGrouping newGroup) {} = some st ∧ st.Inv groupings := by
  refine Loop.foldlM_total (fun seen st => Inv seen st) inv_empty fun done grouping rest st hsplit hinv => ?_
  obtain ⟨st', M, hst', h⟩ := mergeGrouping_total hfresh hinv grouping
  refine ⟨st', hst', h.inv hinv (hgroupings grouping ?_)⟩
  rw [hsplit]
  exact List.mem_append_right _ List.mem_cons_self

theorem collect_total {heap : GroupHeap} {ps : List Nat} (hnodup : ps.Nodup)
    (hlive : ∀ p ∈ ps, ∃ B, heap.lookup p = some B) :
    ∃ r, ps.foldlM collect (∅, heap) = some r ∧ ∀ B, B ∈ r.1 ↔ ∃ p ∈ ps, heap.lookup p = some B := by
  suffices hrun : ∃ r, ps.foldlM collect (∅, heap) = some r ∧
      (∀ p, p ∉ ps → r.2.lookup p = heap.lookup p) ∧
      ∀ B, B ∈ r.1 ↔ ∃ p ∈ ps, heap.lookup p = some B by
    obtain ⟨r, hr, -, hmem⟩ := hrun
    exact ⟨r, hr, hmem⟩
  refine Loop.foldlM_total (fun done (r : Finset (Finset CTxDestination) × GroupHeap) =>
    (∀ p, p ∉ done → r.2.lookup p = heap.lookup p) ∧
      ∀ B, B ∈ r.1 ↔ ∃ p ∈ done, heap.lookup p = some B) ?_ ?_
  · refine ⟨fun _ _ => rfl, fun B => iff_of_false (Finset.notMem_empty B) ?_⟩
    rintro ⟨p, hp, -⟩
    exact List.not_mem_nil hp
  · -- each group is freed in its own round only
    rintro done p rest r hsplit ⟨hrest, hmem⟩
    rw [hsplit] at hnodup hlive
    have hp : p ∉ done := fun hmem => (List.disjoint_of_nodup_append hnodup) hmem List.mem_cons_self
    obtain ⟨B, hB⟩ := hlive p (List.mem_append_right _ List.mem_cons_self)
    refine ⟨_, by unfold collect; rw [hrest p hp, hB, Option.map_some]; rfl, fun q hq => ?_, fun B' => ?_⟩
    · rw [List.mem_append, List.mem_singleton, not_or] at hq
      rw [AList.lookup_erase_ne hq.2, hrest q hq.1]
    · rw [Finset.mem_insert, hmem]
      constructor
      · rintro (rfl | ⟨q, hq, hB'⟩)
        · exact ⟨p, List.mem_append_right _ (List.mem_singleton.mpr rfl), hB⟩
        · exact ⟨q, List.mem_append_left _ hq, hB'⟩
      · rintro ⟨q, hq, hB'⟩
        rcases List.mem_append.mp hq with hq | hq
        · exact .inr ⟨q, hq, hB'⟩
        · rw [List.mem_singleton.mp hq, hB] at hB'
          exact .inl (Option.some.inj hB').symm

end GroupState

/-! ### The links -/

namespace CWallet

variable (ctx : GroupingCtx) (w : CWallet)

/-- An address of an input, of the change or of an output of the wallet. -/
def OwnAddress (a : CTxDestination) : Prop :=
  ∃ hash wtx, w.mapWallet.lookup hash = some wtx ∧
    (a ∈ w.inputAddresses ctx wtx.tx ∨ a ∈ changeAddresses ctx wtx.tx ∨ a ∈ loneAddresses ctx wtx.tx)

/-- Both addresses are among the own inputs and the change of one transaction. -/
def SpentTogether (a b : CTxDestination) : Prop :=
  ∃ hash wtx, w.mapWallet.lookup hash = some wtx ∧
    a ∈ w.inputAddresses ctx wtx.tx ++ changeAddresses ctx wtx.tx ∧
    b ∈ w.inputAddresses ctx wtx.tx ++ changeAddresses ctx wtx.tx

/-- The first input is the wallet's, and one of its inputs has an address. -/
def IsGrouped (tx : CTransaction) : Prop :=
  tx.vin.head?.any (w.isMineIn ctx.isMine) = true ∧ w.inputAddresses ctx tx ≠ []

/-- Both addresses are among the own inputs and the change of one transaction that is grouped. -/
def GroupedTogether (a b : CTxDestination) : Prop :=
  ∃ hash wtx, w.mapWallet.lookup hash = some wtx ∧ w.IsGrouped ctx wtx.tx ∧
    a ∈ w.inputAddresses ctx wtx.tx ++ changeAddresses ctx wtx.tx ∧
    b ∈ w.inputAddresses ctx wtx.tx ++ changeAddresses ctx wtx.tx

variable {ctx w}

theorem mem_inputGrouping :
    a ∈ w.inputGrouping ctx tx ↔
      w.IsGrouped ctx tx ∧ a ∈ w.inputAddresses ctx tx ++ changeAddresses ctx tx := by
  unfold inputGrouping IsGrouped
  by_cases hfirst : tx.vin.head?.any (w.isMineIn ctx.isMine) = true
  · rw [hfirst, Bool.not_true, if_neg Bool.false_ne_true]
    by_cases hinputs : w.inputAddresses ctx tx = []
    · rw [if_pos hinputs]
      exact iff_of_false (Finset.notMem_empty a) fun h => h.1.2 hinputs
    · rw [if_neg hinputs, List.mem_toFinset]
      exact (and_iff_right ⟨rfl, hinputs⟩).symm
  · rw [Bool.not_eq_true] at hfirst
    rw [hfirst, Bool.not_false, if_pos rfl]
    exact iff_of_false (Finset.notMem_empty a) fun h => Bool.false_ne_true h.1.1

theorem mem_txGroupings :
    g ∈ w.txGroupings ctx tx ↔
      (w.inputGrouping ctx tx ≠ ∅ ∧ g = w.inputGrouping ctx tx) ∨ ∃ a ∈ loneAddresses ctx tx, g = {a} := by
  unfold txGroupings
  rw [List.mem_append, List.mem_map]
  refine or_congr ?_ (exists_congr fun a => and_congr_right fun _ => eq_comm)
  by_cases hempty : w.inputGrouping ctx tx = ∅
  · rw [if_pos hempty]
    exact iff_of_false List.not_mem_nil fun h => h.1 hempty
  · rw [if_neg hempty, List.mem_singleton, and_iff_right hempty]

theorem mem_groupings :
    g ∈ w.groupings ctx ↔ ∃ hash wtx, w.mapWallet.lookup hash = some wtx ∧ g ∈ w.txGroupings ctx wtx.tx := by
  unfold groupings
  rw [(ctx.sortGroupings_perm _).mem_iff, List.mem_dedup, List.mem_flatMap]
  constructor
  · rintro ⟨⟨hash, wtx⟩, hentry, hg⟩
    exact ⟨hash, wtx, AList.mem_lookup_iff.mpr hentry, hg⟩
  · rintro ⟨hash, wtx, hlookup, hg⟩
    exact ⟨⟨hash, wtx⟩, AList.mem_lookup_iff.mp hlookup, hg⟩

theorem nonempty_of_mem_groupings (h : g ∈ w.groupings ctx) : g.Nonempty := by
  obtain ⟨hash, wtx, -, hg⟩ := mem_groupings.mp h
  rcases mem_txGroupings.mp hg with ⟨hne, rfl⟩ | ⟨a, -, rfl⟩
  · exact Finset.nonempty_iff_ne_empty.mpr hne
  · exact Finset.singleton_nonempty a

theorem lone_of_input (h : a ∈ w.inputAddresses ctx tx) :
    ∃ hash wtx, w.mapWallet.lookup hash = some wtx ∧ a ∈ loneAddresses ctx wtx.tx := by
  obtain ⟨txin, -, htxin⟩ := List.mem_filterMap.mp h
  unfold inputAddress isMineIn output at htxin
  cases hprev : w.mapWallet.lookup txin.prevout.hash with
  | none => simp [hprev] at htxin
  | some prev =>
    cases hout : prev.tx.vout[txin.prevout.n]? with
    | none => simp [hprev, hout] at htxin
    | some txout =>
      simp only [hprev, hout, Option.bind_some] at htxin
      refine ⟨txin.prevout.hash, prev, hprev, List.mem_filterMap.mpr ⟨txout, List.mem_of_getElem? hout, ?_⟩⟩
      unfold loneAddress
      by_cases hmine : ctx.isMine txout.scriptPubKey ≠ ISMINE_NO
      · rw [if_pos hmine]
        simpa [hmine] using htxin
      · simp [hmine] at htxin

theorem lone_of_change (h : a ∈ changeAddresses ctx tx) :
    a ∈ loneAddresses ctx tx := by
  obtain ⟨txout, hmem, htxout⟩ := List.mem_filterMap.mp h
  refine List.mem_filterMap.mpr ⟨txout, hmem, ?_⟩
  unfold changeAddress isChange at htxout
  unfold loneAddress
  by_cases hmine : ctx.isMine txout.scriptPubKey ≠ ISMINE_NO
  · rw [if_pos hmine]
    split_ifs at htxout
    exact htxout
  · simp [hmine] at htxout

theorem ownAddress_iff (a : CTxDestination) :
    w.OwnAddress ctx a ↔ ∃ hash wtx, w.mapWallet.lookup hash = some wtx ∧ a ∈ loneAddresses ctx wtx.tx := by
  constructor
  · rintro ⟨hash, wtx, hlookup, h | h | h⟩
    · exact lone_of_input h
    · exact ⟨hash, wtx, hlookup, lone_of_change h⟩
    · exact ⟨hash, wtx, hlookup, h⟩
  · rintro ⟨hash, wtx, hlookup, h⟩
    exact ⟨hash, wtx, hlookup, .inr (.inr h)⟩

theorem link_groupings (a b : CTxDestination) :
    Link (w.groupings ctx) a b ↔ w.GroupedTogether ctx a b ∨ (a = b ∧ w.OwnAddress ctx a) := by
  rw [ownAddress_iff]
  constructor
  · rintro ⟨g, hg, ha, hb⟩
    obtain ⟨hash, wtx, hlookup, hg⟩ := mem_groupings.mp hg
    rcases mem_txGroupings.mp hg with ⟨-, rfl⟩ | ⟨c, hc, rfl⟩
    · obtain ⟨hgrouped, ha⟩ := mem_inputGrouping.mp ha
      exact .inl ⟨hash, wtx, hlookup, hgrouped, ha, (mem_inputGrouping.mp hb).2⟩
    · obtain rfl := Finset.mem_singleton.mp ha
      obtain rfl := Finset.mem_singleton.mp hb
      exact .inr ⟨rfl, hash, wtx, hlookup, hc⟩
  · rintro (⟨hash, wtx, hlookup, hgrouped, ha, hb⟩ | ⟨rfl, hash, wtx, hlookup, ha⟩)
    · have ha' := mem_inputGrouping.mpr ⟨hgrouped, ha⟩
      refine ⟨w.inputGrouping ctx wtx.tx,
        mem_groupings.mpr ⟨hash, wtx, hlookup, mem_txGroupings.mpr (.inl ⟨?_, rfl⟩)⟩,
        ha', mem_inputGrouping.mpr ⟨hgrouped, hb⟩⟩
      exact Finset.ne_empty_of_mem ha'
    · exact ⟨{a}, mem_groupings.mpr ⟨hash, wtx, hlookup, mem_txGroupings.mpr (.inr ⟨a, ha, rfl⟩)⟩,
        Finset.mem_singleton_self a, Finset.mem_singleton_self a⟩

variable (ctx w)

theorem getAddressGroupings_isComponents :
    ∃ ret, w.getAddressGroupings ctx = some ret ∧ IsComponents (w.groupings ctx) {B | B ∈ ret} := by
  obtain ⟨st, hst, hinv⟩ := GroupState.mergeGroupings_total ctx.newGroup_fresh
    fun _ hg => nonempty_of_mem_groupings hg
  obtain ⟨r, hr, hmem⟩ := GroupState.collect_total (Finset.sort_nodup st.uniqueGroupings (· ≤ ·))
    fun p hp => (hinv.unique p).mp ((Finset.mem_sort _).mp hp)
  refine ⟨r.1, ?_, ?_⟩
  · unfold getAddressGroupings
    rw [hst, Option.bind_some, hr, Option.map_some]
  · have hblocks : {B | B ∈ r.1} = st.blocks := by
      ext B
      change B ∈ r.1 ↔ _
      rw [hmem]
      constructor
      · rintro ⟨p, -, hB⟩
        exact ⟨p, hB⟩
      · rintro ⟨p, hB⟩
        exact ⟨p, (Finset.mem_sort _).mpr ((hinv.unique p).mpr ⟨B, hB⟩), hB⟩
    rw [hblocks]
    exact hinv.components

/-- The groups are disjoint, cover the own addresses, and two addresses are in one group if they are linked by
transactions that are grouped. -/
theorem getAddressGroupings_components :
    ∃ ret, w.getAddressGroupings ctx = some ret ∧ (∀ B ∈ ret, B.Nonempty) ∧
      (∀ B ∈ ret, ∀ B' ∈ ret, B ≠ B' → Disjoint B B') ∧
      (∀ a, (∃ B ∈ ret, a ∈ B) ↔ w.OwnAddress ctx a) ∧
      ∀ a b, (∃ B ∈ ret, a ∈ B ∧ b ∈ B) ↔
        TransGen (w.GroupedTogether ctx) a b ∨ (a = b ∧ w.OwnAddress ctx a) := by
  obtain ⟨ret, hret, hcomponents⟩ := w.getAddressGroupings_isComponents ctx
  have hlink : Link (w.groupings ctx) = fun a b => w.GroupedTogether ctx a b ∨ (a = b ∧ w.OwnAddress ctx a) := by
    funext a b
    exact propext (link_groupings a b)
  refine ⟨ret, hret, hcomponents.nonempty, ?_, fun a => ?_, fun a b => ?_⟩
  · intro B hB B' hB' hne
    refine Finset.disjoint_left.mpr fun a ha ha' => hne ?_
    exact hcomponents.eq_of_mem B hB B' hB' a ha ha'
  · have hcovers := hcomponents.covers a
    -- an address in some group is linked with itself
    have hself : (∃ g ∈ w.groupings ctx, a ∈ g) ↔ Link (w.groupings ctx) a a := by
      unfold Link
      simp only [and_self]
    rw [hself, link_groupings] at hcovers
    refine hcovers.trans ⟨?_, fun h => .inr ⟨rfl, h⟩⟩
    rintro (⟨hash, wtx, hlookup, -, ha, -⟩ | ⟨-, h⟩)
    · rcases List.mem_append.mp ha with ha | ha
      · exact ⟨hash, wtx, hlookup, .inl ha⟩
      · exact ⟨hash, wtx, hlookup, .inr (.inl ha)⟩
    · exact h
  · have hsame := hcomponents.same a b
    rw [hlink, transGen_or_self] at hsame
    exact hsame

/-! ### A payment whose first input is not the wallet's -/

/-- A pointer after all that are allocated. -/
def nextPointer (heap : GroupHeap) : Nat := heap.keys.toFinset.sup id + 1

theorem lookup_nextPointer (heap : GroupHeap) : heap.lookup (nextPointer heap) = none := by
  rw [AList.lookup_eq_none]
  intro hmem
  have hle : nextPointer heap ≤ heap.keys.toFinset.sup id := Finset.le_sup (f := id) (List.mem_toFinset.mpr hmem)
  exact absurd hle (Nat.not_succ_le_self _)

def groupingSample : GroupingCtx where
  crypto := sampleCrypto
  isMine _ := ISMINE_SPENDABLE
  inAddressBook _ := true
  sortGroupings groupings := groupings
  sortGroupings_perm _ := .rfl
  newGroup := nextPointer
  newGroup_fresh := lookup_nextPointer

def scriptHashOutput (b : UInt8) : CTxOut where
  nValue := 1
  scriptPubKey := [0xa9, 0x14] ++ List.replicate 20 b ++ [0x87]

def jointWallet : CWallet where
  mapWallet := ((∅ : StdMap Uint256 CWalletTx).insert 1
      { tx := { nTime := 0, vin := [], vout := [scriptHashOutput 1, scriptHashOutput 2] } }).insert 2
      { tx :=
          { nTime := 0, vin := [{ prevout := ⟨3, 0⟩ }, { prevout := ⟨1, 0⟩ }, { prevout := ⟨1, 1⟩ }], vout := [] } }

def scriptAddress (b : UInt8) : CTxDestination := .scriptID (List.replicate 20 b)

theorem groupings_jointWallet : jointWallet.groupings groupingSample = [{scriptAddress 1}, {scriptAddress 2}] := by
  decide

/-- The two addresses are spent together, and not in one group. -/
theorem getAddressGroupings_foreignFirst :
    ∃ ret, jointWallet.getAddressGroupings groupingSample = some ret ∧
      TransGen (jointWallet.SpentTogether groupingSample) (scriptAddress 1) (scriptAddress 2) ∧
      ¬ ∃ B ∈ ret, scriptAddress 1 ∈ B ∧ scriptAddress 2 ∈ B := by
  obtain ⟨ret, hret, hcomponents⟩ := jointWallet.getAddressGroupings_isComponents groupingSample
  refine ⟨ret, hret, .single ⟨2, _, rfl, by decide, by decide⟩, fun hsame => ?_⟩
  have hlink : ∀ a b, Link (jointWallet.groupings groupingSample) a b → a = b := by
    rw [groupings_jointWallet]
    rintro a b ⟨g, hg, ha, hb⟩
    rcases List.mem_pair.mp hg with rfl | rfl
    · rw [Finset.mem_singleton.mp ha, Finset.mem_singleton.mp hb]
    · rw [Finset.mem_singleton.mp ha, Finset.mem_singleton.mp hb]
  have hle : TransGen (Link (jointWallet.groupings groupingSample)) ≤ Eq := transGen_minimal hlink
  have heq : scriptAddress 1 = scriptAddress 2 := hle _ _ ((hcomponents.same _ _).mp hsame)
  exact absurd heq (by decide)

end CWallet

end Sphinx
