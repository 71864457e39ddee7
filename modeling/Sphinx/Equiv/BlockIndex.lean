import Sphinx.BestChain
import Sphinx.Util.ParentTree

/-!
# The block index as a tree

A well-formed block index is a tree under `pprev`, graded by `nHeight`, whose root is the genesis
block (`IndexTree.graded`).

* `findBranches_spec`: on every such tree the fork search of `Reorganize` ends at the lowest common
  ancestor, and the two branches are the paths to it;
* `SameTree`: changes of an index that keep the tree, such as those of `pnext` and of the supply.
-/

namespace Sphinx

open ParentTree
open Function (update_of_ne update_self)

variable {m m' : BlockMap} {genesis : Uint256}
variable {h k : Uint256} {e e' pindex : CBlockIndex}

/-- The hash of the block before `h`. -/
def parentOf (m : BlockMap) (h : Uint256) : Option Uint256 := (m h).bind CBlockIndex.pprev

/-- The hash of the block after `h` in the main chain. -/
def nextOf (m : BlockMap) (h : Uint256) : Option Uint256 := (m h).bind CBlockIndex.pnext

def heightOf (m : BlockMap) (h : Uint256) : Nat := (m h).elim 0 CBlockIndex.nHeight

/-- The hashes in the index. -/
def indexed (m : BlockMap) : Set Uint256 := {h | (m h).isSome = true}

/-- An index with entries under their hashes, one genesis block, and every other block on top of an
indexed one. -/
structure IndexTree (m : BlockMap) (genesis : Uint256) : Prop where
  hash : ∀ {h e}, m h = some e → e.hashBlock = h
  root : ∃ e, m genesis = some e ∧ e.pprev = none ∧ e.nHeight = 0
  prev : ∀ {h e}, m h = some e → h ≠ genesis → ∃ prev entry, e.pprev = some prev ∧
    m prev = some entry ∧ e.nHeight = entry.nHeight + 1

theorem mem_indexed (he : m h = some e) : h ∈ indexed m := by
  rw [indexed, Set.mem_ofPred_eq, he]
  rfl

theorem exists_of_mem_indexed (hh : h ∈ indexed m) : ∃ e, m h = some e :=
  Option.isSome_iff_exists.mp hh

theorem parentOf_eq (he : m h = some e) : parentOf m h = e.pprev := by
  rw [parentOf, he, Option.bind_some]

theorem nextOf_eq (he : m h = some e) : nextOf m h = e.pnext := by
  rw [nextOf, he, Option.bind_some]

theorem heightOf_eq (he : m h = some e) :
    heightOf m h = e.nHeight := by
  rw [heightOf, he, Option.elim_some]

namespace IndexTree

variable (ht : IndexTree m genesis)

include ht

theorem ne_genesis {p : Uint256} (hp : parentOf m h = some p) : h ≠ genesis := by
  rintro rfl
  obtain ⟨e, he, hprev, -⟩ := ht.root
  rw [parentOf_eq he, hprev] at hp
  cases hp

theorem graded : Graded (parentOf m) (heightOf m) (indexed m) genesis := by
  -- the entries of a block and of the block before it
  have hstep : ∀ {a p}, a ∈ indexed m → parentOf m a = some p →
      p ∈ indexed m ∧ heightOf m a = heightOf m p + 1 := by
    intro a p ha hp
    obtain ⟨e, he⟩ := exists_of_mem_indexed ha
    obtain ⟨prev, entry, hprev, hentry, hheight⟩ := ht.prev he (ht.ne_genesis hp)
    rw [parentOf_eq he, hprev] at hp
    obtain rfl := Option.some.inj hp
    exact ⟨mem_indexed hentry, by rw [heightOf_eq he, heightOf_eq hentry, hheight]⟩
  refine ⟨fun ha hp => (hstep ha hp).1, fun ha hp => (hstep ha hp).2, ?_, ?_⟩
  · intro a ha hp
    by_contra hne
    obtain ⟨e, he⟩ := exists_of_mem_indexed ha
    obtain ⟨prev, entry, hprev, -⟩ := ht.prev he hne
    rw [parentOf_eq he, hprev] at hp
    cases hp
  · obtain ⟨e, he, -, hheight⟩ := ht.root
    rw [heightOf_eq he, hheight]

theorem exists_pprev (he : m e.hashBlock = some e) (hpos : 0 < e.nHeight) :
    ∃ entry, e.pprev.bind m = some entry ∧ m entry.hashBlock = some entry ∧
      parentOf m e.hashBlock = some entry.hashBlock ∧ e.nHeight = entry.nHeight + 1 := by
  have hne : e.hashBlock ≠ genesis := by
    intro heq
    obtain ⟨e', he', -, hheight⟩ := ht.root
    rw [heq, he'] at he
    obtain rfl := Option.some.inj he
    omega
  obtain ⟨prev, entry, hprev, hentry, hheight⟩ := ht.prev he hne
  obtain rfl := ht.hash hentry
  exact ⟨entry, by rw [hprev, Option.bind_some, hentry], hentry, by rw [parentOf_eq he, hprev],
    hheight⟩

end IndexTree

theorem eq_of_single (hm : m = Function.update (fun _ => none) genesis (some e)) (he' : m k = some e') :
    k = genesis ∧ e' = e := by
  rw [hm] at he'
  by_cases hk : k = genesis
  · rw [hk, update_self] at he'
    exact ⟨hk, (Option.some.inj he').symm⟩
  · rw [update_of_ne hk] at he'
    cases he'

theorem indexTree_single (hhash : e.hashBlock = genesis) (hprev : e.pprev = none)
    (hheight : e.nHeight = 0) (hm : m = Function.update (fun _ => none) genesis (some e)) :
    IndexTree m genesis := by
  refine ⟨?_, ⟨e, by rw [hm, update_self], hprev, hheight⟩,
    fun he' hne => absurd (eq_of_single hm he').1 hne⟩
  intro k e' he'
  obtain ⟨rfl, rfl⟩ := eq_of_single hm he'
  exact hhash

/-! ### The fork search -/

/-- The inner loop goes down to the height of `a` and keeps the lowest common ancestor with `a`. -/
theorem lowerLonger_spec (ht : IndexTree m genesis) {a : Uint256} (ha : a ∈ indexed m) :
    ∀ fuel plonger, m plonger.hashBlock = some plonger → plonger.nHeight < fuel →
      ∃ plonger', lowerLonger m (heightOf m a) fuel plonger = .ok plonger' ∧
        m plonger'.hashBlock = some plonger' ∧ plonger'.nHeight ≤ heightOf m a ∧
        ∀ c, IsLca (parentOf m) a plonger'.hashBlock c → IsLca (parentOf m) a plonger.hashBlock c := by
  intro fuel
  induction fuel with
  | zero => intro plonger _ hlt; omega
  | succ fuel ih =>
    intro plonger hlonger hlt
    rw [lowerLonger]
    by_cases hheight : heightOf m a < plonger.nHeight
    · obtain ⟨pprev, hbind, hpprev, hparent, hnHeight⟩ := ht.exists_pprev hlonger (by omega)
      obtain ⟨plonger', hlower, hmem, hle, hlca⟩ := ih pprev hpprev (by omega)
      rw [if_pos hheight, hbind]
      refine ⟨plonger', hlower, hmem, hle, fun c hc => (hlca c hc).of_parent_right hparent ?_⟩
      intro hanc
      have hle' := ht.graded.height_le ha hanc
      rw [heightOf_eq hlonger] at hle'
      omega
    · exact ⟨plonger, by rw [if_neg hheight], hlonger, by omega, fun c hc => hc⟩

/-- **The fork search ends at the lowest common ancestor.** -/
theorem findFork_spec (ht : IndexTree m genesis) :
    ∀ fuel pfork plonger, m pfork.hashBlock = some pfork → m plonger.hashBlock = some plonger →
      pfork.nHeight < fuel → ∃ c, findFork m fuel pfork plonger = .ok c ∧
        IsLca (parentOf m) pfork.hashBlock plonger.hashBlock c.hashBlock := by
  intro fuel
  induction fuel with
  | zero => intro pfork plonger _ _ hlt; omega
  | succ fuel ih =>
    intro pfork plonger hfork hlonger hlt
    rw [findFork]
    by_cases heq : pfork.hashBlock = plonger.hashBlock
    · exact ⟨pfork, by rw [if_pos heq], by rw [← heq]; exact isLca_self _⟩
    obtain ⟨plonger', hlower, hlonger', hle, hlca⟩ :=
      lowerLonger_spec ht (mem_indexed hfork) (plonger.nHeight + 1) plonger hlonger (by omega)
    rw [heightOf_eq hfork] at hlower hle
    rw [if_neg heq, hlower]
    simp only [exceptOk_bind]
    by_cases heq' : pfork.hashBlock = plonger'.hashBlock
    · exact ⟨pfork, by rw [if_pos heq'], hlca _ (by rw [← heq']; exact isLca_self _)⟩
    -- neither is above the other, so the search goes on below `pfork`
    have hnot : ¬ Ancestor (parentOf m) plonger'.hashBlock pfork.hashBlock := by
      intro hanc
      refine heq' (ht.graded.eq_of_ancestor (mem_indexed hlonger') hanc ?_).symm
      rw [heightOf_eq hlonger', heightOf_eq hfork]
      exact hle
    have hpos : 0 < pfork.nHeight := by
      by_contra hzero
      have h1 := ht.graded.eq_root_of_height (mem_indexed hfork)
        (by rw [heightOf_eq hfork]; omega)
      have h2 := ht.graded.eq_root_of_height (mem_indexed hlonger')
        (by rw [heightOf_eq hlonger']; omega)
      exact heq' (h1.trans h2.symm)
    obtain ⟨pprev, hbind, hpprev, hparent, hnHeight⟩ := ht.exists_pprev hfork hpos
    obtain ⟨c, hfind, hc⟩ := ih pprev plonger' hpprev hlonger' (by omega)
    rw [if_neg heq', hbind]
    exact ⟨c, hfind, hlca _ (hc.of_parent_left hparent hnot)⟩

/-- A branch is the path to the fork. -/
theorem branchTo_spec (ht : IndexTree m genesis) {pfork : Uint256} :
    ∀ fuel pindex, pindex ∈ indexed m → Ancestor (parentOf m) pindex pfork →
      heightOf m pindex < fuel →
      ∃ l, branchTo m pfork fuel pindex = .ok l ∧ IsPath (parentOf m) pindex l pfork := by
  intro fuel
  induction fuel with
  | zero => intro pindex _ _ hlt; omega
  | succ fuel ih =>
    intro pindex hmem hanc hlt
    rw [branchTo]
    by_cases heq : pindex = pfork
    · subst heq
      exact ⟨[], by rw [if_pos rfl], .nil pindex⟩
    obtain ⟨p, hp, hanc'⟩ := (Relation.ReflTransGen.cases_head hanc).resolve_left heq
    have hheight := ht.graded.height_eq hmem hp
    obtain ⟨l, hl, hpath⟩ := ih p (ht.graded.parent_mem hmem hp) hanc' (by omega)
    have hp' : (m pindex).bind CBlockIndex.pprev = some p := hp
    refine ⟨pindex :: l, ?_, .cons hp hpath⟩
    rw [if_neg heq, hp']
    simp only [hl]
    rfl

/-- **The two branches of `Reorganize`**: tip first the one, ancestor first the other. -/
theorem findBranches_spec (ht : IndexTree m genesis) {pindexBest pindexNew : CBlockIndex}
    (hbest : m pindexBest.hashBlock = some pindexBest)
    (hnew : m pindexNew.hashBlock = some pindexNew) :
    ∃ pfork vDisconnect vConnect, findBranches m pindexBest pindexNew = .ok (vDisconnect, vConnect) ∧
      IsLca (parentOf m) pindexBest.hashBlock pindexNew.hashBlock pfork ∧
      IsPath (parentOf m) pindexBest.hashBlock vDisconnect pfork ∧
      IsPath (parentOf m) pindexNew.hashBlock vConnect.reverse pfork := by
  obtain ⟨pfork, hfork, hlca⟩ :=
    findFork_spec ht (pindexBest.nHeight + 1) pindexBest pindexNew hbest hnew (by omega)
  obtain ⟨l, hl, hpath⟩ := branchTo_spec ht (pindexBest.nHeight + 1) pindexBest.hashBlock
    (mem_indexed hbest) hlca.left (by rw [heightOf_eq hbest]; omega)
  obtain ⟨l', hl', hpath'⟩ := branchTo_spec ht (pindexNew.nHeight + 1) pindexNew.hashBlock
    (mem_indexed hnew) hlca.right (by rw [heightOf_eq hnew]; omega)
  refine ⟨pfork.hashBlock, l, l'.reverse, ?_, hlca, hpath, by rw [List.reverse_reverse]; exact hpath'⟩
  rw [findBranches, hfork]
  simp only [exceptOk_bind, hl, hl']
  rfl

/-! ### Changes that keep the tree -/

/-- The fields of an index entry that are set once and for all. -/
structure SameCore (e' e : CBlockIndex) : Prop where
  hashBlock : e'.hashBlock = e.hashBlock
  pprev : e'.pprev = e.pprev
  nHeight : e'.nHeight = e.nHeight
  nChainTrust : e'.nChainTrust = e.nChainTrust
  nFile : e'.nFile = e.nFile
  nBlockPos : e'.nBlockPos = e.nBlockPos

theorem SameCore.refl (e : CBlockIndex) : SameCore e e := ⟨rfl, rfl, rfl, rfl, rfl, rfl⟩

theorem SameCore.trans {e'' : CBlockIndex} (h' : SameCore e'' e') (h : SameCore e' e) :
    SameCore e'' e :=
  ⟨h'.hashBlock.trans h.hashBlock, h'.pprev.trans h.pprev, h'.nHeight.trans h.nHeight,
    h'.nChainTrust.trans h.nChainTrust, h'.nFile.trans h.nFile, h'.nBlockPos.trans h.nBlockPos⟩

/-- The same hashes are indexed, with entries related by `R`. -/
def Entrywise (R : CBlockIndex → CBlockIndex → Prop) (m' m : BlockMap) : Prop :=
  ∀ h, Option.Rel R (m' h) (m h)

namespace Entrywise

variable {R R' : CBlockIndex → CBlockIndex → Prop}

theorem refl (hR : ∀ e, R e e) (m : BlockMap) : Entrywise R m m := by
  intro h
  cases m h with
  | none => exact .none
  | some e => exact .some (hR e)

theorem exists_right (h : Entrywise R m' m) (he' : m' k = some e') : ∃ e, m k = some e ∧ R e' e := by
  have hk := h k
  rw [he'] at hk
  cases he : m k with
  | none => rw [he] at hk; cases hk
  | some e => rw [he] at hk; exact ⟨e, rfl, Option.rel_some_some.mp hk⟩

theorem exists_left (h : Entrywise R m' m) (he : m k = some e) : ∃ e', m' k = some e' ∧ R e' e := by
  have hk := h k
  rw [he] at hk
  cases he' : m' k with
  | none => rw [he'] at hk; cases hk
  | some e' => rw [he'] at hk; exact ⟨e', rfl, Option.rel_some_some.mp hk⟩

theorem none_iff (h : Entrywise R m' m) (k : Uint256) : m' k = none ↔ m k = none := by
  constructor
  · intro hn
    by_contra hne
    obtain ⟨e, he⟩ := Option.ne_none_iff_exists'.mp hne
    obtain ⟨e', he', -⟩ := h.exists_left he
    rw [hn] at he'
    cases he'
  · intro hn
    by_contra hne
    obtain ⟨e', he'⟩ := Option.ne_none_iff_exists'.mp hne
    obtain ⟨e, he, -⟩ := h.exists_right he'
    rw [hn] at he
    cases he

theorem trans {m'' : BlockMap} (hR : ∀ {e e' e''}, R e'' e' → R e' e → R e'' e)
    (h' : Entrywise R m'' m') (h : Entrywise R m' m) : Entrywise R m'' m := by
  intro k
  cases hm : m k with
  | none =>
    rw [(h'.none_iff k).mpr ((h.none_iff k).mpr hm)]
    exact .none
  | some e =>
    obtain ⟨e', he', hrel⟩ := h.exists_left hm
    obtain ⟨e'', he'', hrel'⟩ := h'.exists_left he'
    rw [he'']
    exact .some (hR hrel' hrel)

theorem mono (hR : ∀ {e' e}, R e' e → R' e' e) (h : Entrywise R m' m) : Entrywise R' m' m := by
  intro k
  cases hm : m k with
  | none => rw [(h.none_iff k).mpr hm]; exact .none
  | some e =>
    obtain ⟨e', he', hrel⟩ := h.exists_left hm
    rw [he']
    exact .some (hR hrel)

theorem update (hR : ∀ e, R e e) (he : m k = some e) (hrel : R e' e) :
    Entrywise R (Function.update m k (some e')) m := by
  intro h
  by_cases hh : h = k
  · subst hh
    rw [update_self, he]
    exact .some hrel
  · rw [update_of_ne hh]
    exact refl hR m h

theorem update_both (h : Entrywise R m' m) (hrel : R e' e) :
    Entrywise R (Function.update m' k (some e')) (Function.update m k (some e)) := by
  intro j
  by_cases hj : j = k
  · rw [hj, update_self, update_self]
    exact .some hrel
  · rw [update_of_ne hj, update_of_ne hj]
    exact h j

end Entrywise

/-- The same hashes are indexed, with entries of the same core. -/
abbrev SameTree (m' m : BlockMap) : Prop := Entrywise SameCore m' m

theorem SameTree.mem_indexed (h : SameTree m' m) (hk : k ∈ indexed m) :
    k ∈ indexed m' := by
  obtain ⟨e, he⟩ := exists_of_mem_indexed hk
  obtain ⟨e', he', -⟩ := h.exists_left he
  exact Sphinx.mem_indexed he'

/-- Every entry is registered under its own hash. -/
def HashKeyed (m : BlockMap) : Prop := ∀ {h : Uint256} {e : CBlockIndex}, m h = some e → e.hashBlock = h

theorem HashKeyed.congr (hk : HashKeyed m) (h : SameTree m' m) : HashKeyed m' := by
  intro k e' he'
  obtain ⟨e, he, hsame⟩ := h.exists_right he'
  rw [hsame.hashBlock]
  exact hk he

theorem HashKeyed.insert (hk : HashKeyed m) (e : CBlockIndex) :
    HashKeyed (Function.update m e.hashBlock (some e)) := by
  intro k e' he'
  by_cases heq : k = e.hashBlock
  · subst heq
    rw [update_self, Option.some.injEq] at he'
    rw [he']
  · rw [update_of_ne heq] at he'
    exact hk he'

theorem SameTree.parentOf_eq (h : SameTree m' m) : parentOf m' = parentOf m := by
  funext k
  cases hm : m k with
  | none => rw [parentOf, parentOf, hm, (h.none_iff k).mpr hm]
  | some e =>
    obtain ⟨e', he', hcore⟩ := h.exists_left hm
    rw [Sphinx.parentOf_eq hm, Sphinx.parentOf_eq he', hcore.pprev]

theorem SameTree.heightOf_eq (h : SameTree m' m) : heightOf m' = heightOf m := by
  funext k
  cases hm : m k with
  | none => rw [heightOf, heightOf, hm, (h.none_iff k).mpr hm]
  | some e =>
    obtain ⟨e', he', hcore⟩ := h.exists_left hm
    rw [Sphinx.heightOf_eq hm, Sphinx.heightOf_eq he', hcore.nHeight]

theorem IndexTree.congr (ht : IndexTree m genesis) (h : SameTree m' m) : IndexTree m' genesis := by
  refine ⟨?_, ?_, ?_⟩
  · intro k e' he'
    obtain ⟨e, he, hcore⟩ := h.exists_right he'
    exact hcore.hashBlock.trans (ht.hash he)
  · obtain ⟨e, he, hprev, hheight⟩ := ht.root
    obtain ⟨e', he', hcore⟩ := h.exists_left he
    exact ⟨e', he', hcore.pprev.trans hprev, hcore.nHeight.trans hheight⟩
  · intro k e' he' hne
    obtain ⟨e, he, hcore⟩ := h.exists_right he'
    obtain ⟨prev, entry, hprev, hentry, hheight⟩ := ht.prev he hne
    obtain ⟨entry', hentry', hcore'⟩ := h.exists_left hentry
    exact ⟨prev, entry', hcore.pprev.trans hprev, hentry', by
      rw [hcore.nHeight, hcore'.nHeight, hheight]⟩

/-! ### `pnext` -/

/-- The same entry but for `pnext`. -/
def CBlockIndex.sameButNext (e e' : CBlockIndex) : Prop := e = { e' with pnext := e.pnext }

theorem CBlockIndex.sameButNext_refl (e : CBlockIndex) : e.sameButNext e := rfl

theorem CBlockIndex.sameButNext.trans {e'' : CBlockIndex} (h' : e''.sameButNext e')
    (h : e'.sameButNext e) : e''.sameButNext e := by
  unfold sameButNext at *
  rw [h', h]

theorem CBlockIndex.sameButNext.sameCore (h : e'.sameButNext e) :
    SameCore e' e := by
  rw [h]
  exact ⟨rfl, rfl, rfl, rfl, rfl, rfl⟩

theorem setPrevNext_eq {p : Uint256} {entry : CBlockIndex} (hp : parentOf m h = some p)
    (hentry : m p = some entry) (pnext : Option Uint256) :
    setPrevNext m h pnext = Function.update m p (some { entry with pnext := pnext }) := by
  have hp' : (m h).bind CBlockIndex.pprev = some p := hp
  simp only [setPrevNext, hp', hentry, Option.map_some]

theorem sameButNext_setPrevNext (m : BlockMap) (h : Uint256) (pnext : Option Uint256) :
    Entrywise CBlockIndex.sameButNext (setPrevNext m h pnext) m := by
  have hrefl := Entrywise.refl CBlockIndex.sameButNext_refl m
  unfold setPrevNext
  split
  · exact hrefl
  · next prev _ =>
    cases hprev : m prev with
    | none =>
      rw [Option.map_none, ← hprev, Function.update_eq_self]
      exact hrefl
    | some entry => exact Entrywise.update CBlockIndex.sameButNext_refl hprev rfl

theorem sameTree_setPrevNext (m : BlockMap) (h : Uint256) (pnext : Option Uint256) :
    SameTree (setPrevNext m h pnext) m :=
  (sameButNext_setPrevNext m h pnext).mono CBlockIndex.sameButNext.sameCore

theorem sameButNext_foldl_setPrevNext (f : Uint256 → Option Uint256) (l : List Uint256) :
    ∀ m : BlockMap, Entrywise CBlockIndex.sameButNext
      (l.foldl (fun m h => setPrevNext m h (f h)) m) m := by
  induction l with
  | nil => exact fun m => Entrywise.refl CBlockIndex.sameButNext_refl m
  | cons h l ih =>
    exact fun m => Entrywise.trans CBlockIndex.sameButNext.trans (ih _)
      (sameButNext_setPrevNext m h (f h))

theorem sameTree_foldl_setPrevNext (f : Uint256 → Option Uint256) (l : List Uint256) (m : BlockMap) :
    SameTree (l.foldl (fun m h => setPrevNext m h (f h)) m) m :=
  (sameButNext_foldl_setPrevNext f l m).mono CBlockIndex.sameButNext.sameCore

theorem nextOf_update (m : BlockMap) (k : Uint256) (e : CBlockIndex) :
    nextOf (Function.update m k (some e)) = Function.update (nextOf m) k e.pnext := by
  funext j
  by_cases hj : j = k
  · rw [nextOf, hj, update_self, update_self]
    rfl
  · rw [nextOf, update_of_ne hj, update_of_ne hj]
    rfl

theorem nextOf_setPrevNext {p : Uint256} (hp : parentOf m h = some p) (hmem : p ∈ indexed m)
    (pnext : Option Uint256) :
    nextOf (setPrevNext m h pnext) = Function.update (nextOf m) p pnext := by
  obtain ⟨entry, hentry⟩ := exists_of_mem_indexed hmem
  rw [setPrevNext_eq hp hentry, nextOf_update]

/-- The tip moves down a path, whose blocks are unlinked tip first. -/
theorem follows_unlink {tip fork : Uint256} :
    ∀ {l : List Uint256} {m : BlockMap}, IndexTree m genesis → tip ∈ indexed m →
      IsPath (parentOf m) tip l fork → Follows (parentOf m) (nextOf m) tip →
      Follows (parentOf m) (nextOf (l.foldl (fun m h => setPrevNext m h none) m)) fork := by
  intro l
  induction l generalizing tip with
  | nil =>
    intro m ht hmem hpath hfollows
    cases hpath
    exact hfollows
  | cons h l ih =>
    intro m ht hmem hpath hfollows
    cases hpath with
    | @cons _ p _ _ hp hpath =>
      have htree := sameTree_setPrevNext m h none
      have hpmem := ht.graded.parent_mem hmem hp
      have hstep := hfollows.retract ht.graded hmem hp
      rw [← nextOf_setPrevNext hp hpmem, ← htree.parentOf_eq] at hstep
      rw [← htree.parentOf_eq] at hpath ⊢
      exact ih (ht.congr htree) (htree.mem_indexed hpmem) hpath hstep

/-- The tip moves up a path, whose blocks are linked ancestor first. -/
theorem follows_link {tip fork : Uint256} :
    ∀ {l : List Uint256} {m : BlockMap}, IndexTree m genesis → tip ∈ indexed m →
      IsPath (parentOf m) tip l.reverse fork → Follows (parentOf m) (nextOf m) fork →
      Follows (parentOf m) (nextOf (l.foldl (fun m h => setPrevNext m h (some h)) m)) tip := by
  intro l
  induction l generalizing fork with
  | nil =>
    intro m ht hmem hpath hfollows
    cases hpath
    exact hfollows
  | cons h l ih =>
    intro m ht hmem hpath hfollows
    rw [List.reverse_cons, isPath_append_singleton] at hpath
    obtain ⟨hpath, hp⟩ := hpath
    have htree := sameTree_setPrevNext m h (some h)
    have hhmem := ht.graded.mem_of_ancestor hmem hpath.ancestor
    have hstep := hfollows.extend ht.graded hhmem hp
    rw [← nextOf_setPrevNext hp (ht.graded.parent_mem hhmem hp), ← htree.parentOf_eq] at hstep
    rw [← htree.parentOf_eq] at hpath ⊢
    exact ih (ht.congr htree) (htree.mem_indexed hmem) hpath hstep

/-! ### A new block -/

theorem newBlockIndex_ok {env : Env} {node : Node} {block : CBlock} {nFile nBlockPos : Nat}
    {hashProof : Uint256} {prev : CBlockIndex}
    (hprev : node.mapBlockIndex block.hashPrevBlock = some prev)
    (h : newBlockIndex env node block nFile nBlockPos hashProof = .ok pindex) :
    pindex.hashBlock = env.getBlockHash block ∧ pindex.pprev = some block.hashPrevBlock ∧
      pindex.nHeight = prev.nHeight + 1 ∧ pindex.nFile = nFile ∧ pindex.nBlockPos = nBlockPos ∧
      pindex.pnext = none ∧
      pindex.nChainTrust = prev.nChainTrust + env.getBlockTrust block.nBits := by
  simp only [newBlockIndex, hprev] at h
  split at h
  · cases h
  · obtain rfl := Except.ok.inj h
    exact ⟨rfl, rfl, rfl, rfl, rfl, rfl, rfl⟩

/-- A new entry on top of an indexed block keeps the tree. -/
theorem IndexTree.insert (ht : IndexTree m genesis) {prev : CBlockIndex}
    (hfresh : m pindex.hashBlock = none) (hpprev : pindex.pprev = some prev.hashBlock)
    (hprev : m prev.hashBlock = some prev) (hheight : pindex.nHeight = prev.nHeight + 1) :
    IndexTree (Function.update m pindex.hashBlock (some pindex)) genesis := by
  have hne : ∀ {h e}, m h = some e → h ≠ pindex.hashBlock := by
    rintro h e he rfl
    rw [hfresh] at he
    cases he
  refine ⟨?_, ?_, ?_⟩
  · intro h e he
    by_cases hh : h = pindex.hashBlock
    · rw [hh, update_self] at he
      rw [← Option.some.inj he, hh]
    · rw [update_of_ne hh] at he
      exact ht.hash he
  · obtain ⟨e, he, hroot⟩ := ht.root
    exact ⟨e, by rw [update_of_ne (hne he), he], hroot⟩
  · intro h e he hgen
    by_cases hh : h = pindex.hashBlock
    · rw [hh, update_self] at he
      obtain rfl := Option.some.inj he
      exact ⟨prev.hashBlock, prev, hpprev, by rw [update_of_ne (hne hprev), hprev], hheight⟩
    · rw [update_of_ne hh] at he
      obtain ⟨p, entry, hp, hentry, hheight'⟩ := ht.prev he hgen
      exact ⟨p, entry, hp, by rw [update_of_ne (hne hentry), hentry], hheight'⟩

/-- A new entry that nothing follows leaves the pointers to the next block right. -/
theorem follows_insert (ht : IndexTree m genesis) {tip : Uint256} (hfresh : m pindex.hashBlock = none)
    (hpnext : pindex.pnext = none) (htip : tip ∈ indexed m)
    (hfollows : Follows (parentOf m) (nextOf m) tip) :
    Follows (parentOf (Function.update m pindex.hashBlock (some pindex)))
      (nextOf (Function.update m pindex.hashBlock (some pindex))) tip := by
  have hne : ∀ h ∈ indexed m, h ≠ pindex.hashBlock := by
    rintro h hh rfl
    obtain ⟨e, he⟩ := exists_of_mem_indexed hh
    rw [hfresh] at he
    cases he
  have hparent : ∀ h ∈ indexed m,
      parentOf (Function.update m pindex.hashBlock (some pindex)) h = parentOf m h := by
    intro h hh
    rw [parentOf, update_of_ne (hne h hh), ← parentOf]
  have hnext : nextOf (Function.update m pindex.hashBlock (some pindex)) = nextOf m := by
    funext h
    by_cases hh : h = pindex.hashBlock
    · rw [nextOf, nextOf, hh, update_self, hfresh]
      exact hpnext
    · rw [nextOf, update_of_ne hh, ← nextOf]
  intro b n
  rw [hnext, hfollows b n, ht.graded.ancestor_congr hparent htip]
  constructor
  · rintro ⟨hp, hanc⟩
    exact ⟨by rw [hparent n (ht.graded.mem_of_ancestor htip hanc)]; exact hp, hanc⟩
  · rintro ⟨hp, hanc⟩
    exact ⟨by rw [← hparent n (ht.graded.mem_of_ancestor htip hanc)]; exact hp, hanc⟩

end Sphinx
