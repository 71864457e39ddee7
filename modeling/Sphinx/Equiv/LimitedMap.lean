import Mathlib.Data.Int.Order.Basic
import Mathlib.Data.List.Nodup
import Mathlib.Order.Basic
import Sphinx.LimitedMap
import Sphinx.Util.Checked
import Sphinx.Util.Run

/-!
# Correctness of `limitedmap`

Nodes of the map and entries of `rmap` correspond (`Linked`), and every call but an insertion keeps that and
the limit.  `insert` puts the new node into the map before it compares the size, and evicts from `rmap` before
the new entry is there; so it is right exactly where a new key leaves the map below its limit (`HasRoom`).
-/

namespace Sphinx.LimitedMap

open Checked

variable {K V : Type} [LinearOrder V]

theorem insertEntry_perm (e : V × Nat) : ∀ rmap, (insertEntry e rmap).Perm (e :: rmap) := by
  intro rmap
  induction rmap with
  | nil => exact .refl _
  | cons b rmap ih =>
    unfold insertEntry
    split
    · exact .refl _
    · exact (ih.cons b).trans (.swap _ _ _)

abbrev Ascending (rmap : List (V × Nat)) : Prop := rmap.Pairwise fun a b => a.1 ≤ b.1

theorem insertEntry_ascending (e : V × Nat) : ∀ {rmap : List (V × Nat)}, Ascending rmap →
    Ascending (insertEntry e rmap) := by
  intro rmap
  induction rmap with
  | nil => exact fun _ => List.pairwise_singleton _ _
  | cons b rmap ih =>
    intro h
    obtain ⟨hb, hrest⟩ := List.pairwise_cons.mp h
    unfold insertEntry
    split
    next hlt =>
      refine List.pairwise_cons.mpr ⟨fun a ha => ?_, h⟩
      obtain rfl | ha := List.mem_cons.mp ha
      · exact hlt.le
      · exact hlt.le.trans (hb a ha)
    next hge =>
      refine List.pairwise_cons.mpr ⟨fun a ha => ?_, ih hrest⟩
      obtain rfl | ha := List.mem_cons.mp ((insertEntry_perm e rmap).mem_iff.mp ha)
      · exact not_lt.mp hge
      · exact hb a ha

/-! ### The correspondence -/

def entry (n : MapNode K V) : V × Nat := (n.value, n.addr)

/-- Nodes and entries are in one-to-one correspondence; the lists are those of the two containers. -/
structure LinkedOf (map : List (MapNode K V)) (rmap : List (V × Nat)) (nodes : Nat) : Prop where
  entries : rmap.Perm (map.map entry)
  addrs : (map.map MapNode.addr).Nodup
  keys : (map.map MapNode.key).Nodup
  fresh : ∀ n ∈ map, n.addr < nodes
  ascending : Ascending rmap

abbrev Linked (m : LimitedMap K V) : Prop := LinkedOf m.map m.rmap m.nodes

section Linked

variable {map map' : List (MapNode K V)} {rmap rmap' : List (V × Nat)} {nodes : Nat} {n : MapNode K V}

theorem LinkedOf.perm (h : LinkedOf map rmap nodes) (hp : map.Perm map') : LinkedOf map' rmap nodes where
  entries := h.entries.trans (hp.map _)
  addrs := (hp.map _).nodup_iff.mp h.addrs
  keys := (hp.map _).nodup_iff.mp h.keys
  fresh := fun n hn => h.fresh n (hp.mem_iff.mpr hn)
  ascending := h.ascending

/-- A node goes, and its entry with it. -/
theorem LinkedOf.remove (h : LinkedOf map rmap nodes) (hmap : map.Perm (n :: map'))
    (hrmap : rmap.Perm (entry n :: rmap')) (hasc : Ascending rmap') : LinkedOf map' rmap' nodes := by
  have h' := h.perm hmap
  exact ⟨(hrmap.symm.trans h'.entries).cons_inv, (List.nodup_cons.mp h'.addrs).2, (List.nodup_cons.mp h'.keys).2,
    fun n hn => h'.fresh n (List.mem_cons_of_mem _ hn), hasc⟩

/-- A node comes, and its entry with it. -/
theorem LinkedOf.add (h : LinkedOf map rmap nodes) (haddr : ∀ n' ∈ map, n'.addr ≠ n.addr)
    (hkey : ∀ n' ∈ map, n'.key ≠ n.key) {nodes' : Nat} (hle : nodes ≤ nodes') (hlt : n.addr < nodes') :
    LinkedOf (n :: map) (insertEntry (entry n) rmap) nodes' where
  entries := (insertEntry_perm _ _).trans (h.entries.cons _)
  addrs := List.nodup_cons.mpr ⟨fun hmem => by
    obtain ⟨n', hn', heq⟩ := List.mem_map.mp hmem
    exact haddr n' hn' heq, h.addrs⟩
  keys := List.nodup_cons.mpr ⟨fun hmem => by
    obtain ⟨n', hn', heq⟩ := List.mem_map.mp hmem
    exact hkey n' hn' heq, h.keys⟩
  fresh := List.forall_mem_cons.mpr ⟨hlt, fun n' hn' => Nat.lt_of_lt_of_le (h.fresh n' hn') hle⟩
  ascending := insertEntry_ascending _ h.ascending

end Linked

variable {m m' : LimitedMap K V} {n : MapNode K V}

theorem eraseNode_of_mem (h : m.Linked) (hn : n ∈ m.map) :
    ∃ map, m.map.Perm (n :: map) ∧
      ∀ rmap, { m with rmap := rmap }.eraseNode n.addr = .ok { m with map := map, rmap := rmap } := by
  obtain ⟨n', l₁, l₂, -, haddr, hsplit, herase⟩ :=
    List.exists_of_eraseP (p := fun n' : MapNode K V => decide (n'.addr = n.addr)) hn (by simp)
  have heq : n' = n := List.inj_on_of_nodup_map h.addrs (hsplit ▸ by simp) hn (of_decide_eq_true haddr)
  refine ⟨l₁ ++ l₂, ?_, ?_⟩
  · rw [hsplit, heq]
    exact List.perm_middle
  · intro rmap
    rw [eraseNode, if_pos (List.any_eq_true.mpr ⟨n, hn, by simp⟩), herase]

theorem evict_spec (h : m.Linked) (hne : m.map ≠ []) :
    ∃ n map rmap, m.evict = .ok { m with map := map, rmap := rmap } ∧ m.map.Perm (n :: map) ∧
      (∀ n' ∈ m.map, n.value ≤ n'.value) ∧ LinkedOf map rmap m.nodes := by
  cases hr : m.rmap with
  | nil =>
    have hnil := (hr ▸ h.entries).nil_eq
    exact absurd (List.map_eq_nil_iff.mp hnil.symm) hne
  | cons e rmap =>
    have hmem : e ∈ m.map.map entry := h.entries.mem_iff.mp (hr ▸ List.mem_cons_self)
    obtain ⟨n, hn, rfl⟩ := List.mem_map.mp hmem
    obtain ⟨map, hperm, herase⟩ := eraseNode_of_mem h hn
    have hasc : Ascending (entry n :: rmap) := hr ▸ h.ascending
    refine ⟨n, map, rmap, ?_, hperm, fun n' hn' => ?_,
      h.remove hperm (hr ▸ .refl _) (List.pairwise_cons.mp hasc).2⟩
    · rw [evict, hr]
      show (m.eraseNode n.addr >>= _) = _
      rw [show m.eraseNode n.addr = _ from herase m.rmap]
      rfl
    · have hmem' : entry n' ∈ entry n :: rmap := hr ▸ h.entries.mem_iff.mpr (List.mem_map_of_mem hn')
      obtain heq | hmem' := List.mem_cons.mp hmem'
      · exact (congrArg Prod.fst heq).ge
      · exact (List.pairwise_cons.mp hasc).1 _ hmem'

theorem unlink_spec (h : m.Linked) (hn : n ∈ m.map) :
    ∃ rmap, m.unlink n = .ok { m with rmap := rmap } ∧ m.rmap.Perm (entry n :: rmap) ∧ Ascending rmap := by
  have hmem : entry n ∈ m.rmap := h.entries.mem_iff.mpr (List.mem_map_of_mem hn)
  exact ⟨_, if_pos hmem, List.perm_cons_erase hmem, h.ascending.sublist List.erase_sublist⟩

omit [LinearOrder V] in
theorem evict_length (h : m.evict = .ok m') : m'.map.length + 1 = m.map.length ∧ m'.nMaxSize = m.nMaxSize := by
  unfold evict eraseNode at h
  split at h
  · cases h
  next it rmap _ =>
    split at h
    next hany =>
      obtain rfl := Except.ok.inj h
      obtain ⟨n, hn, hp⟩ := List.any_eq_true.mp hany
      have hlen := List.length_eraseP_of_mem (p := fun n : MapNode K V => decide (n.addr = it)) hn hp
      have hpos := List.length_pos_of_mem hn
      exact ⟨by show (m.map.eraseP _).length + 1 = _; omega, rfl⟩
    next => cases h

theorem shrink_spec {s : Nat} : ∀ {fuel : Nat} {m : LimitedMap K V}, m.Linked →
    m.map.length ≤ fuel + s → ∃ map rmap, m.shrink s fuel = .ok { m with map := map, rmap := rmap } ∧
      LinkedOf map rmap m.nodes ∧ map.length ≤ s ∧ map ⊆ m.map ∧
      ∀ n ∈ m.map, n ∉ map → ∀ n' ∈ map, n.value ≤ n'.value := by
  intro fuel
  induction fuel with
  | zero =>
    intro m h hle
    exact ⟨m.map, m.rmap, rfl, h, by omega, List.Subset.refl _, fun n hn hnot => absurd hn hnot⟩
  | succ fuel ih =>
    intro m h hle
    unfold shrink
    split
    next hlt =>
      obtain ⟨n, map, rmap, hevict, hperm, hlow, hlinked⟩ :=
        evict_spec h (List.length_pos_iff.mp (Nat.zero_lt_of_lt hlt))
      have hlen := hperm.length_eq
      rw [List.length_cons] at hlen
      obtain ⟨map', rmap', hshrink, hlinked', hsize, hsub, hrest⟩ :=
        ih (m := { m with map := map, rmap := rmap }) hlinked (by show map.length ≤ _; omega)
      have hsub' : map ⊆ m.map := fun n' hn' => hperm.mem_iff.mpr (List.mem_cons_of_mem _ hn')
      refine ⟨map', rmap', ?_, hlinked', hsize, fun n' hn' => hsub' (hsub hn'), fun a ha hnot b hb => ?_⟩
      · rw [hevict]
        exact hshrink
      · obtain rfl | ha := List.mem_cons.mp (hperm.mem_iff.mp ha)
        · exact hlow b (hsub' (hsub hb))
        · exact hrest a ha hnot b hb
    next hge =>
      exact ⟨m.map, m.rmap, rfl, h, Nat.not_lt.mp hge, List.Subset.refl _, fun n hn hnot => absurd hn hnot⟩

/-! ### What the calls do -/

variable [DecidableEq K]

omit [LinearOrder V] in
theorem mem_of_find {k : K} (h : m.find k = some n) : n ∈ m.map ∧ n.key = k :=
  ⟨List.mem_of_find?_eq_some h,
    of_decide_eq_true (List.find?_some (p := fun n : MapNode K V => decide (n.key = k)) h)⟩

omit [LinearOrder V] in
theorem ne_of_find_none {k : K} (h : m.find k = none) : ∀ n ∈ m.map, n.key ≠ k := fun n hn heq =>
  List.find?_eq_none.mp h n hn (decide_eq_true heq)

def elements (m : LimitedMap K V) : List (K × V) := m.map.map fun n => (n.key, n.value)

def WithinLimit (m : LimitedMap K V) : Prop := m.nMaxSize = 0 ∨ m.map.length ≤ m.nMaxSize

/-- What a call may take out of the map: an insertion of a new key, when the map is full, one of the lowest elements,
and a new limit, the lowest ones. -/
def RemovesLowest (m : LimitedMap K V) (c : MapCall K V) (m' : LimitedMap K V) : Prop :=
  match c with
  | .insert x => m.find x.1 = none → m'.elements.Perm (x :: m.elements) ∨
      m.nMaxSize ≠ 0 ∧ m.map.length = m.nMaxSize ∧ ∃ r, (x :: m.elements).Perm (r :: m'.elements) ∧
        ∀ y ∈ x :: m.elements, r.2 ≤ y.2
  | .maxSize _ => ∀ n ∈ m.map, n ∉ m'.map → ∀ n' ∈ m'.map, n.value ≤ n'.value
  | _ => True

/-- The call returns, and the map keeps its order and its highest values. -/
def KeepsHighest (m : LimitedMap K V) (c : MapCall K V) : Prop :=
  ∃ m', m.call c = .ok m' ∧ m'.Linked ∧ m'.WithinLimit ∧ m.RemovesLowest c m'

/-- A new key leaves the map below its limit. -/
def HasRoom (m : LimitedMap K V) : MapCall K V → Prop
  | .insert x => m.find x.1 = none → m.nMaxSize = 0 ∨ m.map.length + 1 < m.nMaxSize
  | _ => True

theorem erase_spec (h : m.Linked) (k : K) : ∃ m', m.erase k = .ok m' ∧ m'.Linked ∧
    m'.nMaxSize = m.nMaxSize ∧ m'.map.length ≤ m.map.length := by
  unfold erase
  cases hfind : m.find k with
  | none => exact ⟨m, rfl, h, rfl, Nat.le_refl _⟩
  | some n =>
    obtain ⟨hn, -⟩ := mem_of_find hfind
    obtain ⟨rmap, hunlink, hrmap, hasc⟩ := unlink_spec h hn
    obtain ⟨map, hmap, herase⟩ := eraseNode_of_mem h hn
    refine ⟨{ m with map := map, rmap := rmap }, ?_, h.remove hmap hrmap hasc, rfl, ?_⟩
    · show (m.unlink n >>= fun m => m.eraseNode n.addr) = _
      rw [hunlink]
      exact herase rmap
    · exact (hmap.length_eq ▸ Nat.le_succ _ : map.length ≤ m.map.length)

theorem update_spec (h : m.Linked) (k : K) (v : V) : ∃ m', m.update k v = .ok m' ∧ m'.Linked ∧
    m'.nMaxSize = m.nMaxSize ∧ m'.map.length ≤ m.map.length := by
  unfold update
  cases hfind : m.find k with
  | none => exact ⟨m, rfl, h, rfl, Nat.le_refl _⟩
  | some n =>
    obtain ⟨hn, -⟩ := mem_of_find hfind
    obtain ⟨rmap, hunlink, hrmap, hasc⟩ := unlink_spec h hn
    obtain ⟨map, hmap, -⟩ := eraseNode_of_mem h hn
    have h' := h.perm hmap
    have haddr : ∀ n' ∈ map, n'.addr ≠ n.addr := fun n' hn' heq =>
      (List.nodup_cons.mp h'.addrs).1 (heq ▸ List.mem_map_of_mem hn')
    have hkey : ∀ n' ∈ map, n'.key ≠ n.key := fun n' hn' heq =>
      (List.nodup_cons.mp h'.keys).1 (heq ▸ List.mem_map_of_mem hn')
    have hadd := (h.remove hmap hrmap hasc).add (n := { n with value := v }) haddr hkey (Nat.le_refl _) (h.fresh n hn)
    refine ⟨{ m with
      map := m.map.map fun n' => if n'.addr = n.addr then { n' with value := v } else n'
      rmap := insertEntry (v, n.addr) rmap }, ?_, hadd.perm ?_, rfl, Nat.le_of_eq (List.length_map _)⟩
    · show (m.unlink n >>= _) = _
      rw [hunlink]
      rfl
    · -- the other nodes are where they were
      refine .symm ((hmap.map _).trans (.of_eq ?_))
      rw [List.map_cons, if_pos rfl]
      exact congrArg _ ((List.map_congr_left fun n' hn' => if_neg (haddr n' hn')).trans (List.map_id' _))

/-! ### Insertions -/

theorem insert_length {x : K × V} (h : m.insert x = .ok m') : m'.nMaxSize = m.nMaxSize ∧
    m'.map.length = if (m.find x.1).isSome ∨ m.nMaxSize ≠ 0 ∧ m.map.length + 1 = m.nMaxSize
      then m.map.length else m.map.length + 1 := by
  unfold insert at h
  split at h
  next hfound =>
    obtain rfl := Except.ok.inj h
    exact ⟨rfl, (if_pos (.inl hfound)).symm⟩
  next hnew =>
    obtain ⟨m₁, hm₁, hm'⟩ := bind_ok h
    obtain rfl := Except.ok.inj hm'
    unfold makeRoom at hm₁
    split at hm₁
    next hfull =>
      obtain ⟨hlen, hmax⟩ := evict_length hm₁
      exact ⟨hmax, (Nat.succ.inj hlen).trans (if_pos (.inr hfull)).symm⟩
    next hfull =>
      obtain rfl := Except.ok.inj hm₁
      exact ⟨rfl, (if_neg (not_or.mpr ⟨hnew, hfull⟩)).symm⟩

theorem insert_of_hasRoom {x : K × V} (h : m.Linked) (hnew : m.find x.1 = none)
    (hroom : m.nMaxSize = 0 ∨ m.map.length + 1 < m.nMaxSize) : ∃ m', m.insert x = .ok m' ∧ m'.Linked ∧
      m'.nMaxSize = m.nMaxSize ∧ m'.elements = x :: m.elements := by
  have hfull : ¬ (m.nMaxSize ≠ 0 ∧ m.map.length + 1 = m.nMaxSize) := by omega
  have hadd := h.add (n := ⟨m.nodes, x.1, x.2⟩) (fun n hn => Nat.ne_of_lt (h.fresh n hn))
    (ne_of_find_none hnew) (Nat.le_succ _) (Nat.lt_succ_self _)
  refine ⟨⟨⟨m.nodes, x.1, x.2⟩ :: m.map, insertEntry (x.2, m.nodes) m.rmap, m.nMaxSize, m.nodes + 1⟩,
    ?_, hadd, rfl,
    rfl⟩
  unfold insert makeRoom
  rw [hnew]
  show ((if m.nMaxSize ≠ 0 ∧ m.map.length + 1 = m.nMaxSize then _ else Except.ok _) >>= _) = _
  rw [if_neg hfull]
  rfl

omit [LinearOrder V] in
theorem find_eq_none {k : K} (h : k ∉ m.elements.map Prod.fst) : m.find k = none := by
  refine List.find?_eq_none.mpr fun n hn heq => h ?_
  rw [← of_decide_eq_true heq]
  exact List.mem_map_of_mem (f := Prod.fst) (List.mem_map_of_mem hn)

theorem keepsHighest_iff (h : m.Linked) (hlimit : m.WithinLimit) (c : MapCall K V) :
    m.KeepsHighest c ↔ m.HasRoom c := by
  constructor
  · rintro ⟨m', hcall, -, hlimit', hremoves⟩
    cases c with
    | insert x =>
      intro hnew
      obtain ⟨hmax, hlen⟩ := insert_length hcall
      by_contra hroom
      have hkeep : m'.map.length = m.map.length + 1 ∨ m.map.length = m.nMaxSize :=
        (hremoves hnew).imp (fun hperm => by simpa [elements] using hperm.length_eq) fun hfull => hfull.2.1
      unfold WithinLimit at hlimit hlimit'
      rw [hnew] at hlen
      split at hlen <;> simp at * <;> omega
    | erase k | update k v | maxSize s => trivial
  · intro hroom
    cases c with
    | insert x =>
      cases hfind : m.find x.1 with
      | none =>
        obtain ⟨m', hok, hlinked, hmax, helems⟩ := insert_of_hasRoom h hfind (hroom hfind)
        have hlen : m'.map.length = m.map.length + 1 := by simpa [elements] using congrArg List.length helems
        refine ⟨m', hok, hlinked, ?_, fun _ => .inl (.of_eq helems)⟩
        have hroom := hroom hfind
        unfold WithinLimit
        omega
      | some n =>
        have hsame : m.insert x = .ok m := if_pos (by rw [hfind]; rfl)
        exact ⟨m, hsame, h, hlimit, fun hnew => by rw [hfind] at hnew; cases hnew⟩
    | erase k =>
      obtain ⟨m', hok, hlinked, hmax, hle⟩ := erase_spec h k
      exact ⟨m', hok, hlinked, by unfold WithinLimit at *; omega, trivial⟩
    | update k v =>
      obtain ⟨m', hok, hlinked, hmax, hle⟩ := update_spec h k v
      exact ⟨m', hok, hlinked, by unfold WithinLimit at *; omega, trivial⟩
    | maxSize s =>
      by_cases hs : s = 0
      · refine ⟨{ m with nMaxSize := s }, ?_, h, .inl hs, fun n hn hnot => absurd hn hnot⟩
        show m.setMaxSize s = _
        rw [setMaxSize, if_neg (not_not.mpr hs)]
        rfl
      · obtain ⟨map, rmap, hshrink, hlinked, hle, -, hlow⟩ := shrink_spec (s := s) h (Nat.le_add_right _ _)
        refine ⟨{ m with map := map, rmap := rmap, nMaxSize := s }, ?_, hlinked, .inr hle, hlow⟩
        show m.setMaxSize s = _
        rw [setMaxSize, if_pos hs, hshrink]
        rfl

/-! ### Runs -/

def step (m : LimitedMap K V) (c : MapCall K V) : Option (LimitedMap K V) := (m.call c).toOption

theorem KeepsHighest.inv {c : MapCall K V} (h : m.KeepsHighest c) (hstep : m.step c = some m') :
    m'.Linked ∧ m'.WithinLimit := by
  obtain ⟨m₁, hcall, hlinked, hlimit, -⟩ := h
  rw [step, hcall] at hstep
  obtain rfl := Option.some.inj hstep
  exact ⟨hlinked, hlimit⟩

theorem everyStep_keepsHighest_iff (N : Nat) (cs : List (MapCall K V)) :
    Run.EveryStep step KeepsHighest cs (new N) ↔ Run.EveryStep step HasRoom cs (new N) := by
  have hnew : (new N : LimitedMap K V).Linked ∧ (new N : LimitedMap K V).WithinLimit :=
    ⟨⟨.nil, .nil, .nil, fun _ hn => absurd hn List.not_mem_nil, .nil⟩, .inr (Nat.zero_le _)⟩
  have hiff : ∀ {m : LimitedMap K V} {c}, m.Linked ∧ m.WithinLimit → (m.KeepsHighest c ↔ m.HasRoom c) :=
    fun h => keepsHighest_iff h.1 h.2 _
  exact ⟨Run.everyStep_of_everyStep (fun h => (hiff h).mp) (fun _ hkeeps => hkeeps.inv) cs hnew,
    Run.everyStep_of_everyStep (fun h => (hiff h).mpr) (fun h hroom => ((hiff h).mpr hroom).inv) cs hnew⟩

/-- After insertions into an empty map the highest elements are held, as many as may be. -/
def HoldsHighest (N : Nat) (xs : List (K × V)) : Prop :=
  ∃ m, xs.foldlM insert (new N) = .ok m ∧ m.elements ⊆ xs ∧ m.map.length = min xs.length N ∧
    ∀ x ∈ xs, x ∉ m.elements → ∀ y ∈ m.elements, x.2 ≤ y.2

theorem insertAll_of_hasRoom : ∀ (xs : List (K × V)) {m : LimitedMap K V}, m.Linked →
    ((m.elements ++ xs).map Prod.fst).Nodup → m.map.length + xs.length < m.nMaxSize →
      ∃ m', xs.foldlM insert m = .ok m' ∧ m'.elements.Perm (m.elements ++ xs) := by
  intro xs
  induction xs with
  | nil => exact fun {m} _ _ _ => ⟨m, rfl, .of_eq (List.append_nil _).symm⟩
  | cons x xs ih =>
    intro m h hnodup hlt
    have hmove : (m.elements ++ x :: xs).Perm (x :: m.elements ++ xs) := List.perm_middle
    rw [(hmove.map Prod.fst).nodup_iff] at hnodup
    have hfresh : x.1 ∉ m.elements.map Prod.fst := fun hmem =>
      (List.nodup_cons.mp hnodup).1 (List.map_subset Prod.fst (List.subset_append_left _ _) hmem)
    rw [List.length_cons] at hlt
    obtain ⟨m₁, hok, hlinked, hmax, helems⟩ := insert_of_hasRoom h (find_eq_none hfresh) (.inr (by omega))
    have hlen : m₁.map.length = m.map.length + 1 := by simpa [elements] using congrArg List.length helems
    obtain ⟨m', hrun, hperm⟩ := ih hlinked (helems ▸ hnodup) (by omega)
    refine ⟨m', ?_, hperm.trans (helems ▸ hmove.symm)⟩
    rw [List.foldlM_cons, hok]
    exact hrun

theorem insertAll_length : ∀ (xs : List (K × V)) {m m' : LimitedMap K V}, m.map.length < m.nMaxSize →
    xs.foldlM insert m = .ok m' → m'.map.length < m'.nMaxSize ∧ m'.nMaxSize = m.nMaxSize := by
  intro xs
  induction xs with
  | nil => exact fun h hrun => Except.ok.inj hrun ▸ ⟨h, rfl⟩
  | cons x xs ih =>
    intro m m' h hrun
    rw [List.foldlM_cons] at hrun
    obtain ⟨m₁, hinsert, hrest⟩ := bind_ok hrun
    obtain ⟨hmax, hlen⟩ := insert_length hinsert
    have hlt : m₁.map.length < m₁.nMaxSize := by
      split at hlen <;> omega
    exact (ih hlt hrest).imp_right fun heq => heq.trans hmax

theorem holdsHighest_iff {N : Nat} (hN : 1 ≤ N) {xs : List (K × V)} (hnodup : (xs.map Prod.fst).Nodup) :
    HoldsHighest N xs ↔ xs.length < N := by
  constructor
  · rintro ⟨m, hrun, -, hlen, -⟩
    obtain ⟨hlt, hmax⟩ := insertAll_length xs (m := new N) hN hrun
    have hN' : (new N : LimitedMap K V).nMaxSize = N := rfl
    omega
  · intro hlt
    have hlinked : (new N : LimitedMap K V).Linked :=
      ⟨.nil, .nil, .nil, fun _ hn => absurd hn List.not_mem_nil, .nil⟩
    obtain ⟨m, hrun, hperm⟩ := insertAll_of_hasRoom xs hlinked hnodup
      (show 0 + xs.length < N by omega)
    refine ⟨m, hrun, fun x hx => hperm.mem_iff.mp hx, ?_, fun x hx hnot => absurd (hperm.mem_iff.mpr hx) hnot⟩
    have hlen := hperm.length_eq
    simp only [elements, List.length_map, List.length_append] at hlen
    have hzero : (new N : LimitedMap K V).map.length = 0 := rfl
    omega

/-- `limitedmap` keeps the highest elements exactly as long as every new key leaves it below its limit. -/
theorem limitedMap_keepsHighest :
    (∀ (N : Nat) (cs : List (MapCall K V)),
      Run.EveryStep step KeepsHighest cs (new N) ↔ Run.EveryStep step HasRoom cs (new N)) ∧
    ∀ (N : Nat) (xs : List (K × V)), 1 ≤ N → (xs.map Prod.fst).Nodup →
      (HoldsHighest N xs ↔ xs.length < N) :=
  ⟨everyStep_keepsHighest_iff, fun _ _ hN hnodup => holdsHighest_iff hN hnodup⟩

/-- With a limit of one the first insertion reads an empty `rmap`; with a limit of two the second one takes out the
higher element. -/
theorem insert_evicts_early :
    ¬ (new 1 : LimitedMap Nat Int).KeepsHighest (.insert (1, 5)) ∧
    ¬ HoldsHighest 2 [((1, 5) : Nat × Int), (2, 3)] := by
  constructor
  · rintro ⟨m, hcall, -⟩
    cases hcall
  · rintro ⟨m, hrun, -, hlen, -⟩
    obtain rfl := Except.ok.inj hrun
    exact absurd hlen (by decide)

end Sphinx.LimitedMap
