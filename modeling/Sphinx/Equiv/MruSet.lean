import Mathlib.Data.Finset.Card
import Mathlib.Data.List.DropRight
import Sphinx.MruSet

/-!
# The window of an `mruset`

What an `mruset` is for does not mention two containers: of all the elements that were new when they came (`log`), it
holds the last few (`MruWindow`).  `Shows` says that set and queue are this window.  `Shows.evict` is the lemma that
carries both places where an element leaves: without its first element, a window is the one that holds one element
less.
-/

namespace Sphinx

/-- The effective insertions so far, and how many of the last ones are held. -/
structure MruWindow (T : Type) where
  log : List T
  held : Nat
  limit : Nat

/-- `n`, cut to a limit; there is none if it is zero. -/
def capped (limit n : Nat) : Nat := if limit = 0 then n else min n limit

theorem capped_le (limit n : Nat) : capped limit n ≤ n := by
  unfold capped
  split_ifs
  · exact le_rfl
  · exact min_le_left n limit

theorem capped_le_limit {limit : Nat} (h : limit ≠ 0) (n : Nat) : capped limit n ≤ limit := by
  rw [capped, if_neg h]
  exact min_le_right n limit

namespace MruWindow

variable {T : Type}

def new (limit : Nat) : MruWindow T := ⟨[], 0, limit⟩

def contents (w : MruWindow T) : List T := w.log.rtake w.held

/-- No more is held than has come, and no more than the limit allows. -/
structure Fits (w : MruWindow T) : Prop where
  held_le : w.held ≤ w.log.length
  le_limit : w.limit ≠ 0 → w.held ≤ w.limit

theorem length_contents {w : MruWindow T} (h : w.Fits) : w.contents.length = w.held := by
  have hle := h.held_le
  rw [contents, List.rtake, List.length_drop]
  omega

theorem fits_new (limit : Nat) : (new limit : MruWindow T).Fits := ⟨le_rfl, fun _ => Nat.zero_le limit⟩

variable [DecidableEq T]

/-- What each call does to the window. -/
def call (w : MruWindow T) : MruCall T → MruWindow T
  | .insert x =>
    if x ∈ w.contents then w else { w with log := w.log ++ [x], held := capped w.limit (w.held + 1) }
  | .maxSize s => { w with held := capped s w.held, limit := s }
  | .clear => { w with held := 0 }

theorem call_insert_of_mem {w : MruWindow T} {x : T} (h : x ∈ w.contents) : w.call (.insert x) = w := if_pos h

theorem call_insert_of_not_mem {w : MruWindow T} {x : T} (h : x ∉ w.contents) :
    w.call (.insert x) = { w with log := w.log ++ [x], held := capped w.limit (w.held + 1) } := if_neg h

theorem Fits.call {w : MruWindow T} (h : w.Fits) (c : MruCall T) : (w.call c).Fits := by
  cases c with
  | insert x =>
    rw [MruWindow.call]
    split_ifs
    · exact h
    · refine ⟨?_, fun hlimit => capped_le_limit hlimit _⟩
      rw [List.length_append, List.length_singleton]
      exact (capped_le _ _).trans (Nat.succ_le_succ h.held_le)
  | maxSize s => exact ⟨(capped_le s _).trans h.held_le, fun hlimit => capped_le_limit hlimit _⟩
  | clear => exact ⟨Nat.zero_le _, fun _ => Nat.zero_le _⟩

end MruWindow

namespace MruSet

variable {T : Type}

theorem tail_rtake_succ {l : List T} {n : Nat} (h : n + 1 ≤ l.length) : (l.rtake (n + 1)).tail = l.rtake n := by
  rw [List.rtake, List.rtake, List.tail_drop]
  congr 1
  omega

variable [DecidableEq T]

/-- Set and queue hold the elements of the window. -/
structure Shows (mru : MruSet T) (w : MruWindow T) : Prop where
  set : mru.set = mru.queue.toFinset
  nodup : mru.queue.Nodup
  queue : mru.queue = w.contents
  limit : mru.nMaxSize = w.limit

theorem shows_new (nMaxSizeIn : Nat) : (new nMaxSizeIn : MruSet T).Shows (.new nMaxSizeIn) where
  set := rfl
  nodup := List.nodup_nil
  queue := List.rtake_nil 0 |>.symm
  limit := rfl

/-- **An eviction** leaves the window with one element less.  The set may hold an element that is not queued yet. -/
theorem evict_spec (mru : MruSet T) {w : MruWindow T} {new : Finset T} {n : Nat} (hfits : w.Fits)
    (hheld : w.held = n + 1) (hset : mru.set = new ∪ mru.queue.toFinset) (hnodup : mru.queue.Nodup)
    (hqueue : mru.queue = w.contents) (hnew : ∀ x ∈ new, x ∉ mru.queue) :
    ∃ mru', mru.evict = some mru' ∧ mru'.set = new ∪ mru'.queue.toFinset ∧ mru'.queue.Nodup ∧
      mru'.queue = w.log.rtake n ∧ mru'.nMaxSize = mru.nMaxSize := by
  have hlen := MruWindow.length_contents hfits
  have htail := tail_rtake_succ (l := w.log) (n := n) (hheld ▸ hfits.held_le)
  rw [← hqueue, hheld] at hlen
  rw [MruWindow.contents, hheld] at hqueue
  rw [← hqueue] at htail
  unfold evict
  cases hq : mru.queue with
  | nil =>
    rw [hq] at hlen
    cases hlen
  | cons x queue =>
    rw [hq] at hset hnodup hnew htail
    have hx : x ∉ queue := (List.nodup_cons.mp hnodup).1
    refine ⟨_, rfl, ?_, (List.nodup_cons.mp hnodup).2, htail, rfl⟩
    show mru.set.erase x = new ∪ queue.toFinset
    rw [hset]
    ext y
    rw [Finset.mem_erase, Finset.mem_union, Finset.mem_union, List.mem_toFinset, List.mem_toFinset, List.mem_cons]
    constructor
    · rintro ⟨hne, hy | rfl | hy⟩
      · exact .inl hy
      · exact absurd rfl hne
      · exact .inr hy
    · rintro (hy | hy)
      · refine ⟨?_, .inl hy⟩
        rintro rfl
        exact hnew y hy List.mem_cons_self
      · refine ⟨?_, .inr (.inr hy)⟩
        rintro rfl
        exact hx hy

theorem insert_spec {mru : MruSet T} {w : MruWindow T} (hfits : w.Fits) (h : mru.Shows w) (x : T) :
    ∃ mru', mru.insert x = some (decide (x ∉ w.contents), mru') ∧ mru'.Shows (w.call (.insert x)) := by
  have hmem : x ∈ mru.set ↔ x ∈ w.contents := by rw [h.set, List.mem_toFinset, h.queue]
  have hlen := MruWindow.length_contents hfits
  rw [← h.queue] at hlen
  by_cases hx : x ∈ w.contents
  · rw [insert, if_pos (hmem.mpr hx), MruWindow.call_insert_of_mem hx, decide_eq_false (not_not.mpr hx)]
    exact ⟨mru, rfl, h⟩
  rw [insert, if_neg (mt hmem.mp hx), MruWindow.call_insert_of_not_mem hx, decide_eq_true hx]
  have hset : Insert.insert x mru.set = {x} ∪ mru.queue.toFinset := by rw [h.set, Finset.insert_eq]
  have hnew : ∀ y ∈ ({x} : Finset T), y ∉ mru.queue := by
    intro y hy
    rw [Finset.mem_singleton.mp hy, h.queue]
    exact hx
  -- what stands in the queue when the new element is appended
  suffices hroom : ∃ mru' n, makeRoom { mru with set := Insert.insert x mru.set } = some mru' ∧
      capped w.limit (w.held + 1) = n + 1 ∧ mru'.set = {x} ∪ mru'.queue.toFinset ∧ mru'.queue.Nodup ∧
      mru'.queue = w.log.rtake n ∧ mru'.queue.Sublist mru.queue ∧ mru'.nMaxSize = mru.nMaxSize by
    obtain ⟨mru', n, hmake, hheld, hset', hnodup', hqueue', hsub, hlimit'⟩ := hroom
    rw [hmake]
    refine ⟨_, rfl, ?_, ?_, ?_, hlimit'.trans h.limit⟩
    · show mru'.set = (mru'.queue ++ [x]).toFinset
      rw [hset', List.toFinset_append, Finset.union_comm]
      rfl
    · refine List.nodup_append.mpr ⟨hnodup', List.nodup_singleton x, ?_⟩
      rintro y hy z hz rfl
      rw [List.mem_singleton.mp hz] at hy
      exact hx (h.queue ▸ hsub.subset hy)
    · show mru'.queue ++ [x] = (w.log ++ [x]).rtake (capped w.limit (w.held + 1))
      rw [hheld, List.rtake_concat_succ, hqueue']
  by_cases hfull : mru.nMaxSize ≠ 0 ∧ mru.queue.length = mru.nMaxSize
  · -- the window is full
    obtain ⟨n, hn⟩ : ∃ n, w.held = n + 1 := ⟨w.held - 1, by omega⟩
    obtain ⟨mru', hevict, hset', hnodup', hqueue', hlimit'⟩ :=
      evict_spec { mru with set := Insert.insert x mru.set } hfits hn hset h.nodup h.queue hnew
    refine ⟨mru', n, (if_pos hfull).trans hevict, ?_, hset', hnodup', hqueue', ?_, hlimit'⟩
    · rw [capped, ← h.limit, if_neg hfull.1]
      omega
    · rw [hqueue', h.queue, MruWindow.contents, hn, ← tail_rtake_succ (hn ▸ hfits.held_le)]
      exact List.tail_sublist _
  · refine ⟨_, w.held, if_neg hfull, ?_, hset, h.nodup, h.queue, .refl _, rfl⟩
    unfold capped
    split_ifs with hlimit
    · rfl
    · have hle := hfits.le_limit hlimit
      rw [h.limit] at hfull
      omega

theorem shrink_spec (s : Nat) : ∀ (fuel : Nat) {mru : MruSet T} {w : MruWindow T}, w.Fits → mru.Shows w →
    w.held ≤ fuel + s → ∃ mru', shrink s fuel mru = some mru' ∧ mru'.Shows { w with held := min w.held s } := by
  intro fuel
  induction fuel with
  | zero =>
    intro mru w hfits h hle
    have hlen := MruWindow.length_contents hfits
    rw [← h.queue] at hlen
    rw [shrink, if_neg (by omega), min_eq_left (by omega)]
    exact ⟨mru, rfl, h⟩
  | succ fuel ih =>
    intro mru w hfits h hle
    have hlen := MruWindow.length_contents hfits
    rw [← h.queue] at hlen
    rw [shrink]
    by_cases hlong : s < mru.queue.length
    · obtain ⟨n, hn⟩ : ∃ n, w.held = n + 1 := ⟨w.held - 1, by omega⟩
      have hset : mru.set = ∅ ∪ mru.queue.toFinset := by rw [Finset.empty_union, h.set]
      obtain ⟨mru1, hevict, hset1, hnodup1, hqueue1, hlimit1⟩ :=
        evict_spec mru hfits hn hset h.nodup h.queue fun y hy => absurd hy (Finset.notMem_empty y)
      have hfits1 : ({ w with held := n } : MruWindow T).Fits :=
        ⟨by have := hfits.held_le; show n ≤ w.log.length; omega,
          fun hlimit => by have := hfits.le_limit hlimit; show n ≤ w.limit; omega⟩
      have hshows1 : mru1.Shows { w with held := n } :=
        ⟨by rw [hset1, Finset.empty_union], hnodup1, hqueue1, hlimit1.trans h.limit⟩
      obtain ⟨mru', hrest, h'⟩ := ih hfits1 hshows1 (by show n ≤ fuel + s; omega)
      have hmin : min w.held s = min n s := by omega
      rw [if_pos hlong, hevict, hmin]
      exact ⟨mru', hrest, h'⟩
    · rw [if_neg hlong, min_eq_left (by omega)]
      exact ⟨mru, rfl, h⟩

theorem setMaxSize_spec {mru : MruSet T} {w : MruWindow T} (hfits : w.Fits) (h : mru.Shows w) (s : Nat) :
    ∃ mru', mru.setMaxSize s = some mru' ∧ mru'.Shows (w.call (.maxSize s)) := by
  have hlen := MruWindow.length_contents hfits
  rw [← h.queue] at hlen
  by_cases hs : s = 0
  · refine ⟨{ mru with nMaxSize := s }, ?_, h.set, h.nodup, ?_, rfl⟩
    · rw [setMaxSize, if_neg (not_not.mpr hs)]
      rfl
    · show mru.queue = w.log.rtake (capped s w.held)
      rw [capped, if_pos hs]
      exact h.queue
  · obtain ⟨mru', hshrink, h'⟩ := shrink_spec s mru.queue.length hfits h (by omega)
    refine ⟨{ mru' with nMaxSize := s }, ?_, h'.set, h'.nodup, ?_, rfl⟩
    · rw [setMaxSize, if_pos hs, hshrink]
      rfl
    · show mru'.queue = w.log.rtake (capped s w.held)
      rw [capped, if_neg hs]
      exact h'.queue

theorem call_spec {mru : MruSet T} {w : MruWindow T} (hfits : w.Fits) (h : mru.Shows w) (c : MruCall T) :
    ∃ mru', mru.call c = some mru' ∧ mru'.Shows (w.call c) := by
  cases c with
  | insert x =>
    obtain ⟨mru', hinsert, h'⟩ := insert_spec hfits h x
    refine ⟨mru', ?_, h'⟩
    rw [call, hinsert]
    rfl
  | maxSize s => exact setMaxSize_spec hfits h s
  | clear => exact ⟨mru.clear, rfl, rfl, List.nodup_nil, (List.rtake_zero w.log).symm, h.limit⟩

/-- **A bounded window**: after every sequence of calls, set and queue hold the same elements, none twice and no more
than a limit that is not zero; they are the last effective insertions in their order, cut to the limit in force at
each call. -/
theorem calls_window (nMaxSizeIn : Nat) (calls : List (MruCall T)) :
    ∃ mru, calls.foldlM call (new nMaxSizeIn) = some mru ∧
      (∀ x, x ∈ mru.set ↔ x ∈ mru.queue) ∧ mru.queue.Nodup ∧ mru.set.card = mru.queue.length ∧
      (mru.nMaxSize ≠ 0 → mru.set.card ≤ mru.nMaxSize) ∧
      mru.queue = (calls.foldl MruWindow.call (.new nMaxSizeIn)).contents := by
  suffices hrun : ∀ (calls : List (MruCall T)) {mru : MruSet T} {w : MruWindow T}, w.Fits → mru.Shows w →
      ∃ mru', calls.foldlM call mru = some mru' ∧ (calls.foldl MruWindow.call w).Fits ∧
        mru'.Shows (calls.foldl MruWindow.call w) by
    obtain ⟨mru, hmru, hfits, h⟩ := hrun calls (MruWindow.fits_new nMaxSizeIn) (shows_new nMaxSizeIn)
    have hcard : mru.set.card = mru.queue.length := by rw [h.set, List.toFinset_card_of_nodup h.nodup]
    refine ⟨mru, hmru, fun x => by rw [h.set, List.mem_toFinset], h.nodup, hcard, fun hlimit => ?_, h.queue⟩
    rw [hcard, h.queue, MruWindow.length_contents hfits, h.limit]
    exact hfits.le_limit (h.limit ▸ hlimit)
  intro calls
  induction calls with
  | nil => exact fun hfits h => ⟨_, rfl, hfits, h⟩
  | cons c calls ih =>
    intro mru w hfits h
    obtain ⟨mru1, hcall, h1⟩ := call_spec hfits h c
    obtain ⟨mru', hrest, hfits', h'⟩ := ih (hfits.call c) h1
    refine ⟨mru', ?_, hfits', h'⟩
    rw [List.foldlM_cons, hcall]
    exact hrest

end MruSet

end Sphinx
