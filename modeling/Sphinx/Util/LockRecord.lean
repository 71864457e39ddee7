import Mathlib.Data.Set.Basic
import Mathlib.Data.List.Basic

/-!
# Locks and their record

Someone who locks things writes down what is locked, so that exactly this can be unlocked later.  `base` is what was
locked before, by anyone.

* `Accounted base held recorded`: what is held is `base` and what is recorded, and nothing is both;
* `AccountedWith base held recorded fresh`: besides, `fresh` is held and not yet recorded.

The rules say what becomes of `AccountedWith` when the record grows, when everything recorded is unlocked, and when
nothing is done.
-/

namespace Sphinx.LockRecord

variable {α : Type}

structure Accounted (base : Set α) (held recorded : List α) : Prop where
  mem_held : ∀ a, a ∈ held ↔ a ∈ base ∨ a ∈ recorded
  recorded_apart : ∀ a ∈ recorded, a ∉ base

structure AccountedWith (base : Set α) (held recorded fresh : List α) : Prop where
  mem_held : ∀ a, a ∈ held ↔ a ∈ base ∨ a ∈ recorded ∨ a ∈ fresh
  recorded_apart : ∀ a ∈ recorded, a ∉ base
  fresh_apart : ∀ a ∈ fresh, a ∉ base ∧ a ∉ recorded

variable {base : Set α} {held held' recorded fresh extra : List α}

theorem Accounted.mem_base_iff (h : Accounted base held recorded) (a : α) :
    (a ∈ held ∧ a ∉ recorded) ↔ a ∈ base := by
  rw [h.mem_held a]
  constructor
  · exact fun ha => ha.1.resolve_right ha.2
  · exact fun ha => ⟨.inl ha, fun hrec => h.recorded_apart a hrec ha⟩

/-- What is locked now is new. -/
theorem Accounted.lock (h : Accounted base held recorded) (hfresh : ∀ a ∈ fresh, a ∉ held)
    (hheld : ∀ a, a ∈ held' ↔ a ∈ held ∨ a ∈ fresh) : AccountedWith base held' recorded fresh where
  mem_held _ := by rw [hheld, h.mem_held, or_assoc]
  recorded_apart := h.recorded_apart
  fresh_apart a ha :=
    ⟨fun hbase => hfresh a ha ((h.mem_held a).mpr (.inl hbase)),
      fun hrec => hfresh a ha ((h.mem_held a).mpr (.inr hrec))⟩

/-- Nothing is recorded. -/
theorem AccountedWith.kept_iff (h : AccountedWith base held recorded fresh) :
    Accounted base held recorded ↔ fresh = [] := by
  constructor
  · intro hacc
    refine List.eq_nil_iff_forall_not_mem.mpr fun a ha => ?_
    exact ((hacc.mem_held a).mp ((h.mem_held a).mpr (.inr (.inr ha)))).elim (h.fresh_apart a ha).1
      (h.fresh_apart a ha).2
  · rintro rfl
    refine ⟨fun a => ?_, h.recorded_apart⟩
    rw [h.mem_held]
    exact or_congr_right (or_iff_left List.not_mem_nil)

/-- The record grows by `extra`, which nobody has locked for it, and by what is fresh. -/
theorem AccountedWith.record_iff (h : AccountedWith base held recorded fresh) :
    Accounted base held (recorded ++ extra ++ fresh) ↔ ∀ a ∈ extra, a ∈ recorded ∨ a ∈ fresh := by
  have hrec : ∀ a, a ∈ recorded ++ extra ++ fresh ↔ (a ∈ recorded ∨ a ∈ fresh) ∨ a ∈ extra := by
    intro a
    rw [List.mem_append, List.mem_append]
    exact or_right_comm
  constructor
  · intro hacc a ha
    have hin : a ∈ recorded ++ extra ++ fresh := (hrec a).mpr (.inr ha)
    exact ((h.mem_held a).mp ((hacc.mem_held a).mpr (.inr hin))).resolve_left (hacc.recorded_apart a hin)
  · intro hextra
    have hall : ∀ a, a ∈ recorded ++ extra ++ fresh ↔ a ∈ recorded ∨ a ∈ fresh := fun a =>
      (hrec a).trans (or_iff_left_of_imp (hextra a))
    refine ⟨fun a => (h.mem_held a).trans (or_congr_right (hall a).symm), fun a ha => ?_⟩
    exact ((hall a).mp ha).elim (h.recorded_apart a) fun hfresh => (h.fresh_apart a hfresh).1

/-- All of the grown record is unlocked, and the record is empty then. -/
theorem AccountedWith.release_iff (h : AccountedWith base held recorded fresh)
    (hheld : ∀ a, a ∈ held' ↔ a ∈ held ∧ a ∉ recorded ++ extra ++ fresh) :
    Accounted base held' [] ↔ ∀ a ∈ extra, a ∉ base := by
  constructor
  · intro hacc a ha hbase
    have hin : a ∈ held' := (hacc.mem_held a).mpr (.inl hbase)
    exact ((hheld a).mp hin).2 (List.mem_append_left _ (List.mem_append_right _ ha))
  · intro hextra
    refine ⟨fun a => ?_, fun _ ha => absurd ha List.not_mem_nil⟩
    rw [hheld, h.mem_held, List.mem_append, List.mem_append]
    constructor
    · rintro ⟨hbase | hrec | hfresh, hout⟩
      · exact .inl hbase
      · exact absurd (.inl (.inl hrec)) hout
      · exact absurd (.inr hfresh) hout
    · intro ha
      have hbase : a ∈ base := ha.resolve_right List.not_mem_nil
      refine ⟨.inl hbase, ?_⟩
      rintro ((hrec | hin) | hfresh)
      · exact h.recorded_apart a hrec hbase
      · exact hextra a hin hbase
      · exact (h.fresh_apart a hfresh).1 hbase

end Sphinx.LockRecord
