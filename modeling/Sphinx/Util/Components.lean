import Mathlib.Data.Finset.Basic

/-!
# Connected components of overlapping groups

Two elements are linked if they are in one group.  The components are kept as disjoint blocks.

* `IsComponents.add`: a new group takes with it all blocks that it hits;
* `transGen_or_self`: links of elements with themselves connect nothing else.
-/

namespace Sphinx.Components

open Relation

variable {α : Type} {groups groups' : List (Finset α)} {blocks : Set (Finset α)}

/-- Two elements of one group. -/
def Link (groups : List (Finset α)) (a b : α) : Prop := ∃ g ∈ groups, a ∈ g ∧ b ∈ g

/-- The blocks are disjoint, and each is all that its elements are connected with. -/
structure IsComponents (groups : List (Finset α)) (blocks : Set (Finset α)) : Prop where
  nonempty : ∀ B ∈ blocks, B.Nonempty
  eq_of_mem : ∀ B ∈ blocks, ∀ B' ∈ blocks, ∀ a, a ∈ B → a ∈ B' → B = B'
  same : ∀ a b, (∃ B ∈ blocks, a ∈ B ∧ b ∈ B) ↔ TransGen (Link groups) a b

theorem isComponents_nil : IsComponents ([] : List (Finset α)) ∅ where
  nonempty _ h := absurd h (Set.notMem_empty _)
  eq_of_mem _ h := absurd h (Set.notMem_empty _)
  same a b := by
    refine iff_of_false ?_ ?_
    · rintro ⟨B, hB, -⟩
      exact Set.notMem_empty B hB
    · intro h
      obtain ⟨c, ⟨g, hg, -⟩, -⟩ := TransGen.head'_iff.mp h
      exact absurd hg List.not_mem_nil

theorem IsComponents.covers (h : IsComponents groups blocks) (a : α) :
    (∃ B ∈ blocks, a ∈ B) ↔ ∃ g ∈ groups, a ∈ g := by
  have hself : (∃ B ∈ blocks, a ∈ B) ↔ TransGen (Link groups) a a := by
    rw [← h.same]
    simp only [and_self]
  rw [hself]
  constructor
  · intro hconnected
    obtain ⟨c, ⟨g, hg, ha, -⟩, -⟩ := TransGen.head'_iff.mp hconnected
    exact ⟨g, hg, ha⟩
  · rintro ⟨g, hg, ha⟩
    exact .single ⟨g, hg, ha, ha⟩

section Add

variable {g merged : Finset α}

/-- The blocks after a new group: those it does not hit, and `merged`. -/
def addBlock (blocks : Set (Finset α)) (g merged : Finset α) : Set (Finset α) :=
  {B | B = merged ∨ (B ∈ blocks ∧ ∀ x ∈ B, x ∉ g)}

/-- `merged` has the elements of the new group and of the blocks that it hits. -/
def IsMerged (blocks : Set (Finset α)) (g merged : Finset α) : Prop :=
  ∀ a, a ∈ merged ↔ a ∈ g ∨ ∃ B ∈ blocks, (∃ x ∈ B, x ∈ g) ∧ a ∈ B

theorem mono_append {a b : α} (h : TransGen (Link groups) a b) : TransGen (Link (groups ++ [g])) a b := by
  have hle : Link groups ≤ Link (groups ++ [g]) := by
    rintro c d ⟨g', hg', hcd⟩
    exact ⟨g', List.mem_append_left _ hg', hcd⟩
  exact TransGen.mono hle a b h

/-- Every element of `merged` is connected with one of the new group, in both directions. -/
theorem connected_of_merged (h : IsComponents groups blocks) (hmerged : IsMerged blocks g merged) {a : α}
    (ha : a ∈ merged) : ∃ x ∈ g, TransGen (Link (groups ++ [g])) a x ∧ TransGen (Link (groups ++ [g])) x a := by
  have hg : g ∈ groups ++ [g] := List.mem_append_right _ (List.mem_singleton.mpr rfl)
  rcases (hmerged a).mp ha with ha | ⟨B, hB, ⟨x, hxB, hxg⟩, haB⟩
  · exact ⟨a, ha, .single ⟨g, hg, ha, ha⟩, .single ⟨g, hg, ha, ha⟩⟩
  · exact ⟨x, hxg, mono_append ((h.same a x).mp ⟨B, hB, haB, hxB⟩),
      mono_append ((h.same x a).mp ⟨B, hB, hxB, haB⟩)⟩

theorem IsComponents.add (h : IsComponents groups blocks) (hg : g.Nonempty) (hmerged : IsMerged blocks g merged) :
    IsComponents (groups ++ [g]) (addBlock blocks g merged) := by
  have hgmem : g ∈ groups ++ [g] := List.mem_append_right _ (List.mem_singleton.mpr rfl)
  -- a block that is left has nothing of `merged`
  have hapart : ∀ B ∈ blocks, (∀ x ∈ B, x ∉ g) → ∀ a ∈ B, a ∉ merged := by
    intro B hB hnot a haB hamerged
    rcases (hmerged a).mp hamerged with hag | ⟨B', hB', ⟨x, hxB', hxg⟩, haB'⟩
    · exact hnot a haB hag
    · obtain rfl := h.eq_of_mem B hB B' hB' a haB haB'
      exact hnot x hxB' hxg
  have heq : ∀ B ∈ addBlock blocks g merged, ∀ B' ∈ addBlock blocks g merged, ∀ a,
      a ∈ B → a ∈ B' → B = B' := by
    rintro B (rfl | ⟨hB, hnot⟩) B' (rfl | ⟨hB', hnot'⟩) a ha ha'
    · rfl
    · exact absurd ha (hapart B' hB' hnot' a ha')
    · exact absurd ha' (hapart B hB hnot a ha)
    · exact h.eq_of_mem B hB B' hB' a ha ha'
  refine ⟨?_, heq, fun a b => ⟨?_, fun hconnected => ?_⟩⟩
  · rintro B (rfl | ⟨hB, -⟩)
    · obtain ⟨x, hx⟩ := hg
      exact ⟨x, (hmerged x).mpr (.inl hx)⟩
    · exact h.nonempty B hB
  · rintro ⟨B, rfl | ⟨hB, -⟩, ha, hb⟩
    · obtain ⟨x, hx, hax, -⟩ := connected_of_merged h hmerged ha
      obtain ⟨y, hy, -, hyb⟩ := connected_of_merged h hmerged hb
      exact (hax.tail ⟨g, hgmem, hx, hy⟩).trans hyb
    · exact mono_append ((h.same a b).mp ⟨B, hB, ha, hb⟩)
  · -- the induction is on the chain of links; two blocks that meet are one
    have hlink : ∀ a b, Link (groups ++ [g]) a b → ∃ B ∈ addBlock blocks g merged, a ∈ B ∧ b ∈ B := by
      rintro a b ⟨g', hg', ha, hb⟩
      rcases List.mem_append.mp hg' with hg' | hg'
      · obtain ⟨B, hB, haB, hbB⟩ := (h.same a b).mpr (.single ⟨g', hg', ha, hb⟩)
        by_cases hhit : ∃ x ∈ B, x ∈ g
        · exact ⟨merged, .inl rfl, (hmerged a).mpr (.inr ⟨B, hB, hhit, haB⟩),
            (hmerged b).mpr (.inr ⟨B, hB, hhit, hbB⟩)⟩
        · exact ⟨B, .inr ⟨hB, fun x hx hxg => hhit ⟨x, hx, hxg⟩⟩, haB, hbB⟩
      · obtain rfl := List.mem_singleton.mp hg'
        exact ⟨merged, .inl rfl, (hmerged a).mpr (.inl ha), (hmerged b).mpr (.inl hb)⟩
    induction hconnected with
    | single hab => exact hlink a _ hab
    | tail _ hbc ih =>
      obtain ⟨B, hB, haB, hbB⟩ := ih
      obtain ⟨B', hB', hbB', hcB'⟩ := hlink _ _ hbc
      obtain rfl := heq B hB B' hB' _ hbB hbB'
      exact ⟨B, hB, haB, hcB'⟩

end Add

/-- Links of elements with themselves connect nothing else. -/
theorem transGen_or_self {r : α → α → Prop} {p : α → Prop} (a b : α) :
    TransGen (fun a b => r a b ∨ (a = b ∧ p a)) a b ↔ TransGen r a b ∨ (a = b ∧ p a) := by
  constructor
  · intro h
    induction h with
    | single hab =>
      rcases hab with hab | hab
      · exact .inl (.single hab)
      · exact .inr hab
    | tail _ hbc ih =>
      rcases hbc with hbc | ⟨rfl, hp⟩
      · rcases ih with ih | ⟨rfl, -⟩
        · exact .inl (ih.tail hbc)
        · exact .inl (.single hbc)
      · exact ih
  · rintro (h | h)
    · have hle : r ≤ fun a b => r a b ∨ (a = b ∧ p a) := fun _ _ hab => Or.inl hab
      exact TransGen.mono hle a b h
    · exact .single (.inr h)

end Sphinx.Components
