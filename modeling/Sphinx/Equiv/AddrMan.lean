import Mathlib.Data.Fintype.BigOperators
import Sphinx.Equiv.AddrManBuckets
import Sphinx.Equiv.AddrManIndex
import Sphinx.Util.Loop

/-!
# The address manager keeps its containers in step

`AddrManInv` relates the containers of a `CAddrMan`.  Every function of the manager keeps it, and none of their
assertions fails.
-/

namespace Sphinx

open Function (update update_of_ne update_self)

variable {b : NewBucket}

def CAddrMan.entry (am : CAddrMan) (id : Nat) : Option AddrEntry := (am.mapInfo id).map CAddrInfo.entry

/-- The times of an entry, with `tryOk` for what is known about the last try. -/
structure TimesInv (tryOk : Int → Prop) (nLastSuccess : Int) (fInTried : Bool) (nLastTry : Int) : Prop where
  success_nonneg : 0 ≤ nLastSuccess
  success_pos : fInTried = true → 0 < nLastSuccess
  lastTry : tryOk nLastTry

abbrev CAddrInfo.TimesOk (tryOk : Int → Prop) (info : CAddrInfo) : Prop :=
  TimesInv tryOk info.nLastSuccess info.fInTried info.nLastTry

structure AddrManInv (env : AddrManEnv) (tryOk : Int → Prop) (held : Option Nat) (am : CAddrMan) : Prop where
  index : am.Indexed
  bucket : BucketInv env am.entry am.vvTried am.vvNew held
  size : (am.vRandom.length : Int) = am.nTried + am.nNew
  tried : am.nTried = ∑ b, ((am.vvTried b).length : Int)
  times : ∀ id info, am.mapInfo id = some info → info.TimesOk tryOk

variable {env : AddrManEnv} {tryOk : Int → Prop} {held : Option Nat} {am am' : CAddrMan} {id : Nat} {info : CAddrInfo}

open CAddrMan

theorem addrManInv_empty : AddrManInv env tryOk none {} where
  index := indexInv_empty
  bucket := bucketInv_empty
  size := rfl
  tried := by simp
  times := fun _ _ hid => (by cases hid)

theorem CAddrMan.entry_of_info (hid : am.mapInfo id = some info) : am.entry id = some info.entry := by
  rw [entry, hid]
  rfl

theorem CAddrMan.exists_info {e : AddrEntry} (he : am.entry id = some e) :
    ∃ info, am.mapInfo id = some info ∧ info.entry = e := Option.map_eq_some_iff.mp he

theorem CAddrMan.modify_of_info (hid : am.mapInfo id = some info) (f : CAddrInfo → CAddrInfo) :
    am.modify id f = { am with mapInfo := update am.mapInfo id (some (f info)) } := by
  rw [modify, hid]
  rfl

theorem CAddrMan.entry_modify (hid : am.mapInfo id = some info) (f : CAddrInfo → CAddrInfo) :
    (am.modify id f).entry = update am.entry id (some (f info).entry) := map_modify CAddrInfo.entry hid f

theorem CAddrMan.entry_modify_of_eq {f : CAddrInfo → CAddrInfo} (hf : ∀ info, (f info).entry = info.entry) :
    (am.modify id f).entry = am.entry := funext fun id' => map_modify_of_eq hf id'

theorem Moved.times (h : Moved am am') (htimes : ∀ id info, am.mapInfo id = some info → info.TimesOk tryOk)
    (id : Nat)
    (info : CAddrInfo) (hid : am'.mapInfo id = some info) : info.TimesOk tryOk := by
  obtain ⟨info', hid', hplace⟩ := h.exists_info hid
  have htimes' : info'.placeless.TimesOk tryOk := htimes id info' hid'
  rw [hplace] at htimes'
  exact htimes'

namespace AddrManInv

section

variable (h : AddrManInv env tryOk held am)

include h

theorem info_of_new (hid : id ∈ am.vvNew b) :
    ∃ info, am.mapInfo id = some info ∧ info.fInTried = false := by
  obtain ⟨e, he, hnew⟩ := h.bucket.new_entry b id hid
  obtain ⟨info, hinfo, rfl⟩ := exists_info he
  exact ⟨info, hinfo, hnew⟩

theorem info_of_tried {b : TriedBucket} (hid : id ∈ am.vvTried b) :
    ∃ info, am.mapInfo id = some info ∧ info.fInTried = true := by
  obtain ⟨e, he, htried, -⟩ := (h.bucket.tried_iff b id).mp hid
  obtain ⟨info, hinfo, rfl⟩ := exists_info he
  exact ⟨info, hinfo, htried⟩

/-- A change that the other containers do not depend on. -/
theorem modify {f : CAddrInfo → CAddrInfo}
    (hentry : ∀ info, (f info).entry = info.entry) (hpos : ∀ info, (f info).nRandomPos = info.nRandomPos)
    (htimes : ∀ info, info.TimesOk tryOk → (f info).TimesOk tryOk) :
    AddrManInv env tryOk held (am.modify id f) where
  index := h.index.modify (fun info => congrArg AddrEntry.service (hentry info)) hpos
  bucket := by
    rw [entry_modify_of_eq hentry]
    exact h.bucket
  size := h.size
  tried := h.tried
  times := modify_all h.times fun info hid => htimes info (h.times id info hid)

/-! ### `SwapRandom` and the references -/

theorem swapRandom_spec {n m : Nat} (hn : n < am.vRandom.length)
    (hm : m < am.vRandom.length) :
    ∃ am', am.swapRandom n m = some am' ∧ AddrManInv env tryOk held am' ∧ Moved am am' := by
  obtain ⟨am', hswap, hindex, hmoved, -⟩ := h.index.swapRandom_spec hn hm
  refine ⟨am', hswap, ?_, hmoved⟩
  constructor
  case index => exact hindex
  case bucket =>
    rw [show am'.entry = am.entry from funext (hmoved.map_eq fun info => rfl), hmoved.eq]
    exact h.bucket
  case size =>
    rw [hmoved.length, hmoved.eq]
    exact h.size
  case tried =>
    rw [hmoved.eq]
    exact h.tried
  case times => exact hmoved.times h.times

theorem dropRef_spec (hid : id ∈ am.vvNew b) (hheld : held ≠ some id) :
    ∃ am', am.dropRef id = some am' ∧ AddrManInv env tryOk held (am'.eraseNew b id) ∧ am'.vvNew = am.vvNew := by
  obtain ⟨info, hinfo, hnew⟩ := h.info_of_new hid
  let am0 := am.modify id fun info => { info with nRefCount := info.nRefCount - 1 }
  have hindex0 : am0.Indexed := h.index.modify (fun _ => rfl) fun _ => rfl
  have hinfo0 : am0.mapInfo id = some { info with nRefCount := info.nRefCount - 1 } := mapInfo_modify_self hinfo _
  have hentry0 : am0.entry = update am.entry id
      (some { info.entry with nRefCount := info.entry.nRefCount - 1 }) := entry_modify hinfo _
  have htimes0 : ∀ id info, am0.mapInfo id = some info → info.TimesOk tryOk :=
    modify_all h.times fun info hid => h.times id info hid
  by_cases hcount : info.nRefCount - 1 = 0
  · obtain ⟨hpos, hget⟩ := h.index.nRandomPos_eq hinfo
    obtain ⟨hlt, hget⟩ := List.getElem?_eq_some_iff.mp hget
    have hlt0 : info.nRandomPos.toNat < am0.vRandom.length := hlt
    have hget0 : am0.vRandom[info.nRandomPos.toNat] = id := hget
    have hlast : am0.vRandom.length - 1 < am0.vRandom.length := Nat.sub_one_lt_of_lt hlt0
    obtain ⟨am1, hswap, hindex, hmoved, hplace⟩ := hindex0.swapRandom_spec hlt0 hlast
    rw [hget0, Option.map_eq_some_iff] at hplace
    obtain ⟨info1, hinfo1, hplace⟩ := hplace
    have hservice : info1.service = info.service := by
      have hmap := hmoved.map_eq (g := fun info => info.service) (fun _ => rfl) id
      rw [hinfo1, hinfo0] at hmap
      exact Option.some.inj hmap
    have hentry1 : am1.entry = am0.entry := funext (hmoved.map_eq fun _ => rfl)
    refine ⟨_, by
      simp only [dropRef, hinfo, Option.bind_eq_bind, Option.bind_some, if_pos hcount]
      rw [show am.modify id (fun info => { info with nRefCount := info.nRefCount - 1 }) = am0 from rfl, hswap]
      rfl, ?_, ?_⟩
    · constructor
      case index =>
        rw [← hservice]
        exact IndexInv.pop hindex hinfo1 (by rw [hplace, hmoved.length])
      case bucket =>
        have hbucket := h.bucket.remove (entry_of_info hinfo) hid (show info.nRefCount = 1 by omega) hheld
        have hentry : Option.map CAddrInfo.entry ∘ update am1.mapInfo id none =
            update am.entry id none := by
          rw [Function.comp_update, show Option.map CAddrInfo.entry ∘ am1.mapInfo = am1.entry from rfl,
            hentry1, hentry0,
            Function.update_idem]
          rfl
        rw [← hentry] at hbucket
        rw [hmoved.eq]
        exact hbucket
      case size =>
        have hsize := h.size
        have hlen : am1.vRandom.length = am.vRandom.length := hmoved.length
        have hpos : 0 < am.vRandom.length := Nat.zero_lt_of_lt hlt
        rw [hmoved.eq]
        change ((am1.vRandom.dropLast.length : Nat) : Int) = am.nTried + (am.nNew - 1)
        rw [List.length_dropLast, hlen]
        omega
      case tried =>
        rw [hmoved.eq]
        exact h.tried
      case times =>
        intro id' info' hid'
        by_cases hne : id' = id
        · rw [hne] at hid'
          change update am1.mapInfo id none id = some info' at hid'
          rw [update_self] at hid'
          cases hid'
        · change update am1.mapInfo id none id' = some info' at hid'
          rw [update_of_ne hne] at hid'
          exact hmoved.times htimes0 id' info' hid'
    · rw [hmoved.eq]
      rfl
  · refine ⟨am0, ?_, ?_, rfl⟩
    · simp only [dropRef, hinfo, Option.bind_eq_bind, Option.bind_some, if_neg hcount]
      rfl
    · have hne : info.entry.nRefCount ≠ 1 := fun heq => hcount (by rw [show info.nRefCount = 1 from heq]; rfl)
      constructor
      case index => exact hindex0
      case bucket =>
        have hbucket := h.bucket.decrease (entry_of_info hinfo) hid hne
        rw [← hentry0] at hbucket
        exact hbucket
      case size => exact h.size
      case tried => exact h.tried
      case times => exact htimes0

end

end AddrManInv

/-! ### `ShrinkNew` -/

theorem CAddrMan.findTerrible_spec (nNow : Int) {it : List Nat}
    (hit : ∀ id ∈ it, ∃ info, am.mapInfo id = some info) :
    ∃ found, am.findTerrible nNow it = some found ∧ ∀ id, found = some id → id ∈ it := by
  induction it with
  | nil => exact ⟨none, rfl, fun id heq => (by cases heq)⟩
  | cons id it ih =>
    obtain ⟨info, hinfo⟩ := hit id List.mem_cons_self
    obtain ⟨found, hfound, hmem⟩ := ih fun id' hid' => hit id' (List.mem_cons_of_mem id hid')
    simp only [findTerrible, hinfo, Option.bind_eq_bind, Option.bind_some, Option.pure_def]
    split_ifs with hterrible
    · refine ⟨some id, rfl, fun id' heq => ?_⟩
      rw [← Option.some.inj heq]
      exact List.mem_cons_self
    · exact ⟨found, hfound, fun id' heq => List.mem_cons_of_mem id (hmem id' heq)⟩

/-- An entry is found if one of the positions is one of the list. -/
theorem CAddrMan.findOldest_spec {n it : List Nat} (hit : ∀ id ∈ it, ∃ info, am.mapInfo id = some info) (nI : Nat)
    (nOldest : Option Nat) :
    ∃ found, am.findOldest n it nI nOldest = some found ∧
      (∀ id, found = some id → id ∈ it ∨ nOldest = some id) ∧
      (nOldest ≠ none ∨ (∃ k ∈ n, nI ≤ k ∧ k < nI + it.length) → found ≠ none) := by
  induction it generalizing nI nOldest with
  | nil =>
    refine ⟨nOldest, rfl, fun id heq => Or.inr heq, ?_⟩
    rintro (hne | ⟨k, -, hle, hlt⟩)
    · exact hne
    · exact absurd hle (by simpa using hlt)
  | cons id it ih =>
    obtain ⟨info, hinfo⟩ := hit id List.mem_cons_self
    have ih := ih (fun id' hid' => hit id' (List.mem_cons_of_mem id hid')) (nI + 1)
    rw [findOldest.eq_def]
    dsimp only
    -- what is found after this entry, from `nOldest'` on
    have hrest (nOldest' : Option Nat) (hfrom : ∀ id', nOldest' = some id' → id' = id ∨ nOldest = some id')
        (hsome : nOldest ≠ none → nOldest' ≠ none) (hnI : nI ∈ n → nOldest' ≠ none) :
        ∃ found, am.findOldest n it (nI + 1) nOldest' = some found ∧
          (∀ id', found = some id' → id' ∈ id :: it ∨ nOldest = some id') ∧
          (nOldest ≠ none ∨ (∃ k ∈ n, nI ≤ k ∧ k < nI + (id :: it).length) → found ≠ none) := by
      obtain ⟨found, hfound, hmem, hne⟩ := ih nOldest'
      refine ⟨found, hfound, fun id' heq => ?_, fun h => hne ?_⟩
      · rcases hmem id' heq with hid' | hid'
        · exact Or.inl (List.mem_cons_of_mem id hid')
        · rcases hfrom id' hid' with rfl | hold
          · exact Or.inl List.mem_cons_self
          · exact Or.inr hold
      · rcases h with hold | ⟨k, hk, hle, hlt⟩
        · exact Or.inl (hsome hold)
        · rcases Nat.eq_or_lt_of_le hle with rfl | hgt
          · exact Or.inl (hnI hk)
          · rw [List.length_cons] at hlt
            exact Or.inr ⟨k, hk, hgt, by omega⟩
    have hself : ∀ id', some id = some id' → id' = id ∨ nOldest = some id' :=
      fun id' heq => Or.inl (Option.some.inj heq).symm
    split_ifs with hnI
    · cases nOldest with
      | none => exact hrest (some id) hself (fun _ => by simp) fun _ => by simp
      | some old =>
        simp only [hinfo, Option.bind_eq_bind, Option.bind_some]
        split_ifs with hold
        · exact hrest (some id) hself (fun _ => by simp) fun _ => by simp
        · exact hrest (some old) (fun id' heq => Or.inr heq) (fun _ => by simp) fun _ => by simp
    · exact hrest nOldest (fun id' heq => Or.inr heq) (fun hold => hold) fun hmem => absurd hmem hnI

namespace AddrManInv

theorem vvNew_eraseNew_self : (am.eraseNew b id).vvNew b = (am.vvNew b).erase id :=
  update_self ..

/-- A bucket that is full loses one entry, and not the one that a reference is open for. -/
theorem shrinkNew_spec (h : AddrManInv env tryOk (some id) am) (nNow : Int) (rnd : Nat → Nat)
    (hfull : (am.vvNew b).card = addrmanNewBucketSize) (hid : id ∉ am.vvNew b) :
    ∃ r, am.shrinkNew b nNow rnd = some r ∧ AddrManInv env tryOk (some id) r.2 ∧ id ∉ r.2.vvNew b ∧
      (r.2.vvNew b).card < addrmanNewBucketSize := by
  have hdrop (id' : Nat) (hid' : id' ∈ am.vvNew b) :
      ∃ am', am.dropRef id' = some am' ∧ AddrManInv env tryOk (some id) (am'.eraseNew b id') ∧
        id ∉ (am'.eraseNew b id').vvNew b ∧ ((am'.eraseNew b id').vvNew b).card < addrmanNewBucketSize := by
    have hne : some id ≠ some id' := fun heq => hid (Option.some.inj heq ▸ hid')
    obtain ⟨am', hdrop, hinv, hnew⟩ := h.dropRef_spec hid' hne
    refine ⟨am', hdrop, hinv, ?_, ?_⟩
    · rw [vvNew_eraseNew_self, hnew]
      exact fun hin => hid (Finset.mem_of_mem_erase hin)
    · rw [vvNew_eraseNew_self, hnew, Finset.card_erase_of_mem hid', hfull]
      decide
  have hmem_iff (id' : Nat) : id' ∈ (am.vvNew b).sort ↔ id' ∈ am.vvNew b := Finset.mem_sort _
  have hlen : (am.vvNew b).sort.length = addrmanNewBucketSize := by rw [Finset.length_sort, hfull]
  rw [shrinkNew]
  generalize (am.vvNew b).sort = vNew at hmem_iff hlen ⊢
  have hinfo : ∀ id' ∈ vNew, ∃ info, am.mapInfo id' = some info := by
    intro id' hid'
    obtain ⟨info, hinfo, -⟩ := h.info_of_new ((hmem_iff id').mp hid')
    exact ⟨info, hinfo⟩
  obtain ⟨found, hfound, hmem⟩ := findTerrible_spec nNow hinfo
  simp only [hfound, Option.bind_eq_bind, Option.bind_some]
  cases found with
  | some id' =>
    obtain ⟨am', hdrop, hinv⟩ := hdrop id' ((hmem_iff id').mp (hmem id' rfl))
    exact ⟨(0, am'.eraseNew b id'), by simp only [hdrop, Option.bind_some, Option.pure_def], hinv⟩
  | none =>
    let n := (List.range 4).map fun k => getRandInt (rnd k) vNew.length
    obtain ⟨found, hfound, hmem, hne⟩ := findOldest_spec (n := n) hinfo 0 none
    -- the first of the four positions is one of the bucket
    have hfirst : getRandInt (rnd 0) vNew.length < vNew.length := by
      rw [hlen]
      exact Nat.mod_lt _ (by decide)
    have hmem_n : getRandInt (rnd 0) vNew.length ∈ n := List.mem_map.mpr ⟨0, by simp, rfl⟩
    have hsome : found ≠ none := hne (Or.inr ⟨_, hmem_n, Nat.zero_le _, by omega⟩)
    obtain ⟨id', rfl⟩ := Option.ne_none_iff_exists'.mp hsome
    have hid' : id' ∈ vNew := (hmem id' rfl).resolve_right (by simp)
    obtain ⟨am', hdrop, hinv⟩ := hdrop id' ((hmem_iff id').mp hid')
    refine ⟨(1, am'.eraseNew b id'), ?_, hinv⟩
    change (am.findOldest n vNew 0 none).bind _ = _
    simp only [hfound, hdrop, Option.bind_some, Option.pure_def]

/-! ### `Add_` -/

/-- The open reference is put into its bucket, for which there is place. -/
theorem insertNew (h : AddrManInv env tryOk (some id) am) (hid : id ∉ am.vvNew b)
    (hsize : (am.vvNew b).card < addrmanNewBucketSize) :
    AddrManInv env tryOk none (am.insertNew b id) where
  index := h.index
  bucket := h.bucket.insertHeld hid hsize
  size := h.size
  tried := h.tried
  times := h.times

/-- A reference of an entry that is not tried is open. -/
theorem hold (h : AddrManInv env tryOk none am) (hid : am.mapInfo id = some info) (hnew : info.fInTried = false)
    (hcount : info.nRefCount ≠ addrmanNewBucketsPerAddress) :
    AddrManInv env tryOk (some id) (am.modify id fun info => { info with nRefCount := info.nRefCount + 1 }) := by
  have hentry := entry_of_info hid
  obtain ⟨hlo, hhi⟩ := h.bucket.refs_new id info.entry hentry hnew
  have hrefs := h.bucket.refs id info.entry hentry
  constructor
  case index => exact h.index.modify (fun _ => rfl) fun _ => rfl
  case bucket =>
    rw [entry_modify hid]
    refine h.bucket.hold (e := info.entry) hnew (by simpa using hrefs) (lt_of_le_of_ne hhi hcount) fun e' he' => ?_
    rw [hentry, Option.some.injEq] at he'
    rw [← he']
    exact hnew
  case size => exact h.size
  case tried => exact h.tried
  case times => exact modify_all h.times fun info hid => h.times id info hid

theorem addToNew_spec (addr : CService) (source : CNetAddr) (nNow : Int) (rnd : Nat → Nat)
    (hin : ∀ b, id ∈ am.vvNew b → AddrManInv env tryOk none am)
    (hheld : AddrManInv env tryOk (some id) (am.modify id fun info => { info with nRefCount := info.nRefCount + 1 })) :
    ∃ am', am.addToNew env id addr source nNow rnd = some am' ∧ AddrManInv env tryOk none am' := by
  rw [addToNew]
  generalize CAddrInfo.getNewBucket env addr source = b
  by_cases hmem : id ∈ am.vvNew b
  · exact ⟨am, by simp only [if_pos hmem], hin b hmem⟩
  have hmem1 : id ∉ (am.modify id fun info => { info with nRefCount := info.nRefCount + 1 }).vvNew b := hmem
  simp only [if_neg hmem]
  generalize am.modify id (fun info => { info with nRefCount := info.nRefCount + 1 }) = am1 at hheld hmem1 ⊢
  by_cases hfull : (am1.vvNew b).card = addrmanNewBucketSize
  · obtain ⟨r, hshrink, hinv, hout, hlt⟩ := hheld.shrinkNew_spec nNow rnd hfull hmem1
    refine ⟨r.2.insertNew b id, ?_, hinv.insertNew hout hlt⟩
    simp only [if_pos hfull, hshrink, Option.map_some, Option.bind_eq_bind, Option.bind_some]
  · refine ⟨am1.insertNew b id, ?_, hheld.insertNew hmem1 (lt_of_le_of_ne (hheld.bucket.new_size b) hfull)⟩
    simp only [if_neg hfull, Option.bind_eq_bind, Option.bind_some]

/-- A new entry, whose first reference is open. -/
theorem create_held (h : AddrManInv env tryOk none am) (htry : tryOk 0) (addr : CAddress) (source : CNetAddr)
    (f : CAddrInfo → CAddrInfo) (hentry : ∀ info, (f info).entry = info.entry)
    (hpos : ∀ info, (f info).nRandomPos = info.nRandomPos)
    (htimes : ∀ info : CAddrInfo, info.TimesOk tryOk → (f info).TimesOk tryOk)
    (haddr : am.find addr.service.ip = none) :
    let am1 := (am.create addr source).modify am.nIdCount f
    let am2 := { am1 with nNew := am1.nNew + 1 }
    (∀ b, am.nIdCount ∉ am2.vvNew b) ∧ AddrManInv env tryOk (some am.nIdCount)
      (am2.modify am.nIdCount fun info => { info with nRefCount := info.nRefCount + 1 }) := by
  intro am1 am2
  have hfresh : am.mapInfo am.nIdCount = none := by
    rw [Option.eq_none_iff_forall_ne_some]
    exact fun info hid => absurd (h.index.id_lt _ info hid) (lt_irrefl _)
  let info : CAddrInfo := { CAddrInfo.ofAddress addr source with nRandomPos := am.vRandom.length }
  have hout (b : NewBucket) : am.nIdCount ∉ am.vvNew b := by
    intro hmem
    obtain ⟨info, hid, -⟩ := h.info_of_new hmem
    rw [hfresh] at hid
    cases hid
  refine ⟨hout, ?_⟩
  have hindex : (am.create addr source).Indexed :=
    @IndexInv.create _ _ _ _ info h.index rfl fun id info' hid => h.index.find_eq_none_iff.mp haddr id info' hid
  have hindex1 : am1.Indexed := hindex.modify (fun info => congrArg AddrEntry.service (hentry info)) hpos
  have hindex2 : am2.Indexed := hindex1
  have hmap : (am.create addr source).mapInfo = update am.mapInfo am.nIdCount (some info) := rfl
  have hinfo : (am.create addr source).mapInfo am.nIdCount = some info := by rw [hmap, update_self]
  have hinfo2 : am2.mapInfo am.nIdCount = some (f info) := mapInfo_modify_self hinfo f
  have htimes0 : ∀ id info, (am.create addr source).mapInfo id = some info → info.TimesOk tryOk := by
    intro id' info' hid'
    by_cases hne : id' = am.nIdCount
    · rw [hne, hinfo, Option.some.injEq] at hid'
      rw [← hid']
      exact ⟨le_rfl, fun htried => (by cases htried), htry⟩
    · rw [hmap, update_of_ne hne] at hid'
      exact h.times id' info' hid'
  have htimes2 : ∀ id info, am2.mapInfo id = some info → info.TimesOk tryOk :=
    modify_all htimes0 fun info hid => htimes info (htimes0 _ info hid)
  constructor
  case index => exact hindex2.modify (fun _ => rfl) fun _ => rfl
  case bucket =>
    have hentry2 : am2.entry = update am.entry am.nIdCount (some info.entry) := by
      rw [← hentry info]
      refine (entry_modify hinfo f).trans ?_
      have hcreate : (am.create addr source).entry = update am.entry am.nIdCount (some info.entry) :=
        Function.comp_update (Option.map CAddrInfo.entry) am.mapInfo am.nIdCount (some info)
      rw [hcreate, Function.update_idem]
    have hempty : newBuckets am.vvNew am.nIdCount = ∅ := by
      rw [Finset.eq_empty_iff_forall_notMem]
      exact fun b hb => hout b (mem_newBuckets.mp hb)
    have hnone : am.entry am.nIdCount = none := by rw [entry, hfresh, Option.map_none]
    have hfirst : info.entry.nRefCount < addrmanNewBucketsPerAddress :=
      show (0 : Int) < addrmanNewBucketsPerAddress by decide
    have hvalue : CAddrInfo.entry { f info with nRefCount := (f info).nRefCount + 1 } =
        { info.entry with nRefCount := info.entry.nRefCount + 1 } := by
      rw [← hentry info]
      rfl
    rw [entry_modify hinfo2, hentry2, Function.update_idem, hvalue]
    exact h.bucket.hold rfl (by rw [hempty]; rfl) hfirst fun e' he' => (by rw [hnone] at he'; cases he')
  case size =>
    have hsize := h.size
    change ((am.vRandom ++ [am.nIdCount]).length : Int) = am.nTried + (am.nNew + 1)
    rw [List.length_append, List.length_singleton]
    omega
  case tried => exact h.tried
  case times => exact modify_all htimes2 fun info hid => htimes2 _ info hid

theorem add_spec (h : AddrManInv env tryOk none am) (htry : tryOk 0) (addr : CAddress) (source : CNetAddr)
    (nTimePenalty nNow : Int) (rnd : Nat → Nat) :
    ∃ r, am.add_ env addr source nTimePenalty nNow rnd = some r ∧ AddrManInv env tryOk none r.2 := by
  rw [add_]
  by_cases hroutable : (!env.isRoutable addr.service.ip) = true
  · exact ⟨(false, am), by rw [if_pos hroutable], h⟩
  rw [if_neg hroutable]
  cases hfind : am.find addr.service.ip with
  | none =>
    obtain ⟨hout, hheld⟩ := h.create_held htry addr source
      (fun info => { info with nTime := toUnsignedInt (max 0 (info.nTime - nTimePenalty)) }) (fun _ => rfl)
      (fun _ => rfl) (fun _ htimes => htimes) hfind
    obtain ⟨am', hadd, hinv⟩ := addToNew_spec addr.service source nNow (fun k => rnd (k + 1))
      (fun b hmem => absurd hmem (hout b)) hheld
    refine ⟨(true, am'), ?_, hinv⟩
    dsimp only
    rw [hadd, Option.map_some]
  | some found =>
    obtain ⟨id, info⟩ := found
    obtain ⟨hid, -⟩ := h.index.find_eq_some_iff.mp hfind
    have h1 : AddrManInv env tryOk none (am.modify id (updateInfo addr nTimePenalty nNow)) :=
      h.modify (fun _ => rfl) (fun _ => rfl) fun _ htimes => htimes
    have hid1 : (am.modify id (updateInfo addr nTimePenalty nNow)).mapInfo id =
      some (updateInfo addr nTimePenalty nNow info) := mapInfo_modify_self hid _
    dsimp only
    generalize am.modify id (updateInfo addr nTimePenalty nNow) = am1 at h1 hid1 ⊢
    generalize updateInfo addr nTimePenalty nNow info = info1 at hid1 ⊢
    split_ifs with hold htried hcount htest
    · exact ⟨(false, am1), rfl, h1⟩
    · exact ⟨(false, am1), rfl, h1⟩
    · exact ⟨(false, am1), rfl, h1⟩
    · exact ⟨(false, am1), rfl, h1⟩
    · obtain ⟨am', hadd, hinv⟩ := addToNew_spec info1.service source nNow (fun k => rnd (k + 1)) (fun _ _ => h1)
        (h1.hold hid1 (by simpa using htried) hcount)
      exact ⟨(false, am'), by rw [hadd, Option.map_some], hinv⟩

end AddrManInv

/-! ### `MakeTried` -/

theorem sum_length_update (vvTried : TriedBucket → List Nat) (k : TriedBucket) (vTried : List Nat) :
    ∑ b, ((update vvTried k vTried b).length : Int) =
      ∑ b, ((vvTried b).length : Int) + (vTried.length - (vvTried k).length) := by
  have hrest : ∑ b ∈ Finset.univ.erase k, ((update vvTried k vTried b).length : Int) =
      ∑ b ∈ Finset.univ.erase k, ((vvTried b).length : Int) :=
    Finset.sum_congr rfl fun b hb => by rw [update_of_ne (Finset.ne_of_mem_erase hb)]
  rw [← Finset.add_sum_erase _ _ (Finset.mem_univ k), ← Finset.add_sum_erase _ (fun b => ((vvTried b).length : Int))
    (Finset.mem_univ k), hrest, update_self]
  omega

namespace CAddrMan

/-- All of the rounds that take an entry from the "new" buckets. -/
theorem foldl_eraseRound (hid : am.mapInfo id = some info) {L : List NewBucket} (hL : L.Nodup) :
    L.foldl (eraseRound id) am = { am with
      mapInfo := update am.mapInfo id
        (some { info with nRefCount := info.nRefCount - (L.filter fun b => id ∈ am.vvNew b).length })
      vvNew := fun b => if b ∈ L then (am.vvNew b).erase id else am.vvNew b } := by
  induction L generalizing am info with
  | nil =>
    have hmap : update am.mapInfo id (some info) = am.mapInfo := by rw [← hid, Function.update_eq_self]
    simp [hmap]
  | cons b L ih =>
    obtain ⟨hb, hL⟩ := List.nodup_cons.mp hL
    rw [List.foldl_cons, eraseRound]
    split_ifs with hmem
    · let am1 := (am.eraseNew b id).modify id fun info => { info with nRefCount := info.nRefCount - 1 }
      have hid1 : am1.mapInfo id = some { info with nRefCount := info.nRefCount - 1 } := mapInfo_modify_self hid _
      have hnew (b' : NewBucket) (hne : b' ≠ b) : am1.vvNew b' = am.vvNew b' := update_of_ne hne ..
      have hfilter : L.filter (fun b => id ∈ am1.vvNew b) = L.filter fun b => id ∈ am.vvNew b :=
        List.filter_congr fun b' hb' => by rw [hnew b' (by rintro rfl; exact hb hb')]
      rw [ih hid1 hL, hfilter]
      refine congrArg₂ (fun mapInfo vvNew => { am with mapInfo := mapInfo, vvNew := vvNew }) ?_ (funext fun b' => ?_)
      · change update (update am.mapInfo id _) id _ = _
        rw [Function.update_idem, List.filter_cons_of_pos (by simpa using hmem), List.length_cons]
        congr 3
        push_cast
        omega
      · by_cases hb' : b' = b
        · subst hb'
          rw [if_neg hb, if_pos List.mem_cons_self]
          exact update_self ..
        · rw [hnew b' hb']
          simp [hb']
    · rw [ih hid hL, List.filter_cons_of_neg (by simpa using hmem)]
      refine congrArg (fun vvNew => { am with
        mapInfo := update am.mapInfo id (some { info with
          nRefCount := info.nRefCount - (L.filter fun b => id ∈ am.vvNew b).length })
        vvNew := vvNew }) (funext fun b' => ?_)
      by_cases hb' : b' = b
      · subst hb'
        rw [if_neg hb, if_pos List.mem_cons_self, Finset.erase_eq_of_notMem hmem]
      · simp [hb']

/-- The entry leaves every "new" bucket, and has no reference left. -/
theorem foldl_eraseRound_all (hid : am.mapInfo id = some info)
    (hcount : info.nRefCount = (newBuckets am.vvNew id).card) :
    (List.finRange addrmanNewBucketCount).foldl (eraseRound id) am = { am with
      mapInfo := update am.mapInfo id (some { info with nRefCount := 0 })
      vvNew := fun b => (am.vvNew b).erase id } := by
  have hcard : ((List.finRange addrmanNewBucketCount).filter fun b => id ∈ am.vvNew b).length =
      (newBuckets am.vvNew id).card := rfl
  rw [foldl_eraseRound hid (List.nodup_finRange _), hcard, ← hcount, sub_self]
  simp only [List.mem_finRange, if_true]

/-- The bucket is shuffled, and a position in it is found. -/
theorem selectTried_spec {k : TriedBucket} (rnd : Nat → Nat)
    (hinfo : ∀ id ∈ am.vvTried k, ∃ info, am.mapInfo id = some info) (hne : am.vvTried k ≠ []) :
    ∃ vTried nOldest nPos, am.selectTried k rnd = some (vTried, some (nOldest, nPos)) ∧
      vTried.Perm (am.vvTried k) ∧ nPos < vTried.length := by
  let I (done : List Nat) (st : List Nat × Option (Nat × Nat)) : Prop :=
    st.1.Perm (am.vvTried k) ∧ (∀ o, st.2 = some o → o.2 < (am.vvTried k).length) ∧
      (done ≠ [] → st.2 ≠ none)
  let ns := List.range (min addrmanTriedEntriesInspectOnEvict (am.vvTried k).length)
  obtain ⟨st, hst, hperm, hlt, hsome⟩ : ∃ st, ns.foldlM (am.selectRound rnd) (am.vvTried k, none) = some st ∧
      I ns st :=
    Loop.foldlM_total I ⟨List.Perm.refl _, fun o heq => (by cases heq), fun h => absurd rfl h⟩ (by
      rintro done i rest ⟨vTried, oldest⟩ hxs ⟨hperm, hlt, hsome⟩
      have hi : i < (am.vvTried k).length := by
        have hmem : i ∈ ns := by
          rw [hxs]
          simp
        exact (List.mem_range.mp hmem).trans_le (min_le_right _ _)
      have hlen : vTried.length = (am.vvTried k).length := hperm.length_eq
      have hi' : i < vTried.length := by omega
      have hpos : getRandInt (rnd i) (vTried.length - i) + i < vTried.length := by
        have hmod := Nat.mod_lt (rnd i) (show 0 < vTried.length - i by omega)
        rw [getRandInt, if_neg (by omega)]
        omega
      rw [selectRound]
      dsimp only
      generalize getRandInt (rnd i) (vTried.length - i) + i = nPos at hpos ⊢
      rw [List.getD_eq_getElem vTried 0 hpos, List.getD_eq_getElem vTried 0 hi']
      have hperm' := (List.set_set_perm hpos hi').trans hperm
      obtain ⟨info, hinfo'⟩ := hinfo _ (hperm.mem_iff.mp (List.getElem_mem hpos))
      have hstate (o : Nat × Nat) (ho : o.2 < (am.vvTried k).length) :
          I (done ++ [i]) ((vTried.set nPos vTried[i]).set i vTried[nPos], some o) :=
        ⟨hperm', fun o' heq => Option.some.inj heq ▸ ho, fun _ => Option.some_ne_none o⟩
      cases oldest with
      | none => exact ⟨_, rfl, hstate _ (hlen ▸ hpos)⟩
      | some o =>
        simp only [hinfo', Option.bind_eq_bind, Option.bind_some]
        split_ifs
        · exact ⟨_, rfl, hstate _ (hlen ▸ hpos)⟩
        · exact ⟨_, rfl, hstate o (hlt o rfl)⟩)
  obtain ⟨vTried, oldest⟩ := st
  have hlen : 0 < (am.vvTried k).length := List.length_pos_iff.mpr hne
  have hrange : List.range (min addrmanTriedEntriesInspectOnEvict (am.vvTried k).length) ≠ [] := by
    rw [ne_eq, List.range_eq_nil]
    have : 0 < addrmanTriedEntriesInspectOnEvict := by decide
    omega
  obtain ⟨⟨nOldest, nPos⟩, rfl⟩ := Option.ne_none_iff_exists'.mp (hsome hrange)
  exact ⟨vTried, nOldest, nPos, hst, hperm, hperm.length_eq ▸ hlt _ rfl⟩

end CAddrMan

namespace AddrManInv

theorem times_update {mapInfo : Nat → Option CAddrInfo}
    (htimes : ∀ id info, mapInfo id = some info → info.TimesOk tryOk) (hinfo : info.TimesOk tryOk) :
    ∀ id' info', update mapInfo id (some info) id' = some info' → info'.TimesOk tryOk := by
  intro id' info' hid'
  by_cases hne : id' = id
  · rw [hne, update_self, Option.some.injEq] at hid'
    rwa [← hid']
  · rw [update_of_ne hne] at hid'
    exact htimes id' info' hid'

section

variable (h : AddrManInv env tryOk none am)

include h

section

variable (hid : am.mapInfo id = some info) (hnew : info.fInTried = false) (hsuccess : 0 < info.nLastSuccess)

include hid hnew hsuccess

/-- The entry moves to a "tried" bucket that has place. -/
theorem promote
    (hsize : (am.vvTried (CAddrInfo.getTriedBucket env info.service)).length < addrmanTriedBucketSize) :
    AddrManInv env tryOk none { am with
      mapInfo := update am.mapInfo id (some { info with nRefCount := 0, fInTried := true })
      vvNew := fun b => (am.vvNew b).erase id
      nNew := am.nNew - 1
      vvTried := update am.vvTried (CAddrInfo.getTriedBucket env info.service)
        (am.vvTried (CAddrInfo.getTriedBucket env info.service) ++ [id])
      nTried := am.nTried + 1 } := by
  constructor
  case index => exact h.index.update hid rfl rfl
  case bucket =>
    have hbucket := h.bucket.promote (entry_of_info hid) hnew (by simp) rfl hsize
    have hentry : Option.map CAddrInfo.entry ∘ update am.mapInfo id
        (some { info with nRefCount := 0, fInTried := true }) =
        update am.entry id (some { info.entry with nRefCount := 0, fInTried := true }) :=
      Function.comp_update ..
    rw [← hentry] at hbucket
    exact hbucket
  case size =>
    have hsize := h.size
    change (am.vRandom.length : Int) = am.nTried + 1 + (am.nNew - 1)
    omega
  case tried =>
    have htried := h.tried
    change am.nTried + 1 = ∑ b, ((update am.vvTried _ _ b).length : Int)
    rw [sum_length_update, List.length_append, List.length_singleton]
    omega
  case times => exact times_update h.times ⟨(h.times id info hid).1, fun _ => hsuccess, (h.times id info hid).3⟩

/-- The entry takes the place of one in its "tried" bucket, which goes to a "new" bucket. -/
theorem exchange {k : TriedBucket}
    (hk : CAddrInfo.getTriedBucket env info.service = k) {vTried : List Nat}
    (hperm : vTried.Perm (am.vvTried k)) {nPos : Nat} (hpos : nPos < vTried.length)
    {infoOld : CAddrInfo} (hold : am.mapInfo vTried[nPos] = some infoOld)
    (hsize : ((am.vvNew b).erase id).card < addrmanNewBucketSize) :
    AddrManInv env tryOk none { am with
      mapInfo := update
        (update am.mapInfo vTried[nPos] (some { infoOld with fInTried := false, nRefCount := 1 })) id
        (some { info with nRefCount := 0, fInTried := true })
      vvNew := update (fun b => (am.vvNew b).erase id) b (insert vTried[nPos] ((am.vvNew b).erase id))
      nNew := am.nNew - 1 + 1
      vvTried := update am.vvTried k (vTried.set nPos id) } := by
  have hmem : vTried[nPos] ∈ am.vvTried k := hperm.mem_iff.mp (List.getElem_mem hpos)
  have hout : id ∉ am.vvTried k := h.bucket.not_tried (entry_of_info hid) hnew k
  have hne : id ≠ vTried[nPos] := by
    intro heq
    rw [heq] at hout
    exact hout hmem
  have hid' : update am.mapInfo vTried[nPos] (some { infoOld with fInTried := false, nRefCount := 1 }) id =
      some info := by rw [update_of_ne hne, hid]
  constructor
  case index =>
    have hindex : IndexInv (update am.mapInfo vTried[nPos]
        (some { infoOld with fInTried := false, nRefCount := 1 })) am.mapAddr am.vRandom am.nIdCount :=
      h.index.update hold rfl rfl
    exact hindex.update hid' rfl rfl
  case bucket =>
    have hrest : (am.vvTried k).Perm (vTried[nPos] :: vTried.eraseIdx nPos) :=
      hperm.symm.trans (List.getElem_cons_eraseIdx_perm hpos).symm
    have hdemote := h.bucket.demote (entry_of_info hold) hrest
    have hplace : (update am.vvTried k (vTried.eraseIdx nPos) k).length < addrmanTriedBucketSize := by
      have hsize := h.bucket.tried_size k
      rw [update_self, List.length_eraseIdx_of_lt hpos, hperm.length_eq]
      have hlen := hperm.length_eq
      omega
    have hpromote := @BucketInv.promote _ _ _ _ _ id info.entry hdemote
      (by rw [update_of_ne hne, entry_of_info hid]) hnew (by simpa using Ne.symm hne) k hk hplace
    -- the old entry was tried, so it is in no "new" bucket
    have hout' : vTried[nPos] ∉ (am.vvNew b).erase id := by
      intro hin
      obtain ⟨info', hid', hnew'⟩ := h.info_of_new (Finset.mem_of_mem_erase hin)
      obtain ⟨info'', hid'', htried⟩ := h.info_of_tried hmem
      rw [hid', Option.some.injEq] at hid''
      rw [← hid'', hnew'] at htried
      cases htried
    have hperm' (b' : TriedBucket) : (update am.vvTried k (vTried.set nPos id) b').Perm
        (update (update am.vvTried k (vTried.eraseIdx nPos)) k
          (update am.vvTried k (vTried.eraseIdx nPos) k ++ [id]) b') := by
      by_cases hb' : b' = k
      · subst hb'
        rw [update_self, update_self, update_self]
        exact (List.set_perm_cons_eraseIdx hpos id).trans (List.perm_append_singleton id _).symm
      · rw [update_of_ne hb', update_of_ne hb', update_of_ne hb']
    have hinsert := (hpromote.insertHeld hout' hsize).perm hperm'
    have hentry : Option.map CAddrInfo.entry ∘ update
        (update am.mapInfo vTried[nPos] (some { infoOld with fInTried := false, nRefCount := 1 })) id
          (some { info with nRefCount := 0, fInTried := true }) =
        update (update am.entry vTried[nPos]
          (some { infoOld.entry with fInTried := false, nRefCount := 1 })) id
            (some { info.entry with nRefCount := 0, fInTried := true }) := by
      rw [Function.comp_update, Function.comp_update]
      rfl
    rw [← hentry] at hinsert
    exact hinsert
  case size =>
    have hsize := h.size
    change (am.vRandom.length : Int) = am.nTried + (am.nNew - 1 + 1)
    omega
  case tried =>
    have htried := h.tried
    change am.nTried = ∑ b, ((update am.vvTried k _ b).length : Int)
    rw [sum_length_update, List.length_set, hperm.length_eq]
    omega
  case times =>
    have hold' := h.times _ infoOld hold
    refine times_update (times_update h.times ?_) ?_
    · exact ⟨hold'.1, fun htried => (by cases htried), hold'.3⟩
    · exact ⟨(h.times id info hid).1, fun _ => hsuccess, (h.times id info hid).3⟩

theorem makeTried_spec {nOrigin : NewBucket}
    (hmem : id ∈ am.vvNew nOrigin)
    (rnd : Nat → Nat) : ∃ am', am.makeTried env id nOrigin rnd = some am' ∧ AddrManInv env tryOk none am' := by
  have hcount : info.nRefCount = (newBuckets am.vvNew id).card := by
    have hrefs : info.nRefCount = _ := h.bucket.refs id info.entry (entry_of_info hid)
    simpa using hrefs
  rw [makeTried, if_pos hmem, foldl_eraseRound_all hid hcount]
  simp only [update_self, Option.bind_eq_bind, Option.bind_some, if_true]
  generalize hk : CAddrInfo.getTriedBucket env info.service = k
  by_cases hplace : (am.vvTried k).length < addrmanTriedBucketSize
  · refine ⟨_, by rw [if_pos hplace], ?_⟩
    subst hk
    rw [modify_of_info (update_self ..)]
    simp only [Function.update_idem]
    exact h.promote hid hnew hsuccess hplace
  rw [if_neg hplace]
  have hout : id ∉ am.vvTried k := h.bucket.not_tried (entry_of_info hid) hnew k
  generalize ham0 : ({ am with
    mapInfo := update am.mapInfo id (some { info with nRefCount := 0 })
    vvNew := fun b => (am.vvNew b).erase id
    nNew := am.nNew - 1 } : CAddrMan) = am0
  have htried0 : am0.vvTried = am.vvTried := by rw [← ham0]
  have hmap0 : am0.mapInfo = update am.mapInfo id (some { info with nRefCount := 0 }) := by rw [← ham0]
  have hold0 (id' : Nat) (hid' : id' ∈ am.vvTried k) :
      id ≠ id' ∧ ∃ info, am.mapInfo id' = some info ∧ am0.mapInfo id' = some info := by
    obtain ⟨info', hinfo', -⟩ := h.info_of_tried hid'
    have hne : id' ≠ id := by
      rintro rfl
      exact hout hid'
    exact ⟨hne.symm, info', hinfo', by rw [hmap0, update_of_ne hne, hinfo']⟩
  have hinfo0 : ∀ id' ∈ am0.vvTried k, ∃ info, am0.mapInfo id' = some info := by
    intro id' hid'
    obtain ⟨-, info', -, hinfo'⟩ := hold0 id' (htried0 ▸ hid')
    exact ⟨info', hinfo'⟩
  have hnil : am0.vvTried k ≠ [] := by
    intro hnil
    rw [← htried0, hnil] at hplace
    exact hplace (by decide)
  obtain ⟨vTried, nOldest, nPos, hselect, hperm, hpos⟩ := selectTried_spec rnd hinfo0 hnil
  rw [htried0] at hperm
  obtain ⟨hne, infoOld, hold, hold'⟩ := hold0 vTried[nPos] (hperm.mem_iff.mp (List.getElem_mem hpos))
  have hold0' : am0.mapInfo vTried[nPos] = some infoOld := hold'
  have hid0 : (am0.modify vTried[nPos] fun info => { info with fInTried := false, nRefCount := 1 }).mapInfo id =
      some { info with nRefCount := 0 } := by rw [mapInfo_modify_of_ne hne, hmap0, update_self]
  rw [hmap0] at hold'
  simp only [hselect, Option.bind_some, List.getD_eq_getElem vTried 0 hpos, hold']
  refine ⟨_, rfl, ?_⟩
  have hnew0 (b : NewBucket) : (am0.modify vTried[nPos] fun info =>
      { info with fInTried := false, nRefCount := 1 }).vvNew b = (am.vvNew b).erase id := by rw [← ham0]; rfl
  obtain ⟨nUBucket, hU⟩ : ∃ b, b = CAddrInfo.getNewBucket env infoOld.service infoOld.source := ⟨_, rfl⟩
  rw [hnew0, ← hU]
  obtain ⟨b, hb⟩ : ∃ b,
      b = if ((am.vvNew nUBucket).erase id).card < addrmanNewBucketSize then nUBucket else nOrigin :=
    ⟨_, rfl⟩
  rw [← hb]
  have hsize : ((am.vvNew b).erase id).card < addrmanNewBucketSize := by
    split_ifs at hb with hroom
    · rw [hb]
      exact hroom
    · -- `id` was in the bucket that it came from
      have hpos := Finset.card_pos.mpr ⟨id, hmem⟩
      have hle := h.bucket.new_size nOrigin
      rw [hb, Finset.card_erase_of_mem hmem]
      omega
  have hmap : update (update am0.mapInfo vTried[nPos]
      (some { infoOld with fInTried := false, nRefCount := 1 })) id
        (some { info with nRefCount := 0, fInTried := true }) =
      update (update am.mapInfo vTried[nPos]
        (some { infoOld with fInTried := false, nRefCount := 1 })) id
          (some { info with nRefCount := 0, fInTried := true }) := by
    rw [hmap0, Function.update_comm hne, Function.update_idem, Function.update_comm hne.symm]
  have hinv := h.exchange hid hnew hsuccess hk hperm hpos hold hsize
  rw [← hmap] at hinv
  rw [modify_of_info hold0'] at hid0 ⊢
  subst ham0
  convert hinv using 1
  rw [CAddrMan.modify, CAddrMan.insertNew]
  rw [hid0]
  rfl

end

/-! ### The other functions -/

theorem good_spec (addr : CService) {nTime : Int} (hpos : 0 < nTime)
    (htry : tryOk nTime) (rnd : Nat → Nat) :
    ∃ am', am.good_ env addr nTime rnd = some am' ∧ AddrManInv env tryOk none am' := by
  rw [good_]
  cases hfind : am.find addr.ip with
  | none => exact ⟨am, rfl, h⟩
  | some found =>
    obtain ⟨id, info⟩ := found
    obtain ⟨hid, -⟩ := h.index.find_eq_some_iff.mp hfind
    dsimp only
    by_cases hservice : info.service ≠ addr
    · exact ⟨am, by rw [if_pos hservice], h⟩
    rw [if_neg hservice]
    let f : CAddrInfo → CAddrInfo := fun info => { info with
      nLastSuccess := nTime, nLastTry := nTime, nTime := toUnsignedInt nTime, nAttempts := 0 }
    have h1 : AddrManInv env tryOk none (am.modify id f) :=
      h.modify (fun _ => rfl) (fun _ => rfl) fun _ _ => ⟨hpos.le, fun _ => hpos, htry⟩
    have hid1 : (am.modify id f).mapInfo id = some (f info) := mapInfo_modify_self hid f
    change ∃ am', (if info.fInTried then some (am.modify id f) else _) = some am' ∧ _
    generalize am.modify id f = am1 at h1 hid1 ⊢
    by_cases htried : info.fInTried = true
    · exact ⟨am1, by rw [if_pos htried], h1⟩
    rw [if_neg htried]
    split
    next => exact ⟨am1, rfl, h1⟩
    next nUBucket hbucket =>
      have hmem : id ∈ am1.vvNew nUBucket := by simpa using List.find?_some hbucket
      exact h1.makeTried_spec hid1 (by simpa using htried) hpos hmem fun k => rnd (k + 1)

theorem attempt_spec (addr : CService) {nTime : Int} (htry : tryOk nTime) :
    AddrManInv env tryOk none (am.attempt_ addr nTime) := by
  rw [attempt_]
  split
  next => exact h
  next =>
    split_ifs
    · exact h
    · exact h.modify (fun _ => rfl) (fun _ => rfl) fun _ htimes => ⟨htimes.1, htimes.2, htry⟩

theorem connected_spec (addr : CService) (nTime : Int) :
    AddrManInv env tryOk none (am.connected_ addr nTime) := by
  rw [connected_]
  split
  next => exact h
  next =>
    split_ifs
    · exact h
    · exact h.modify (fun _ => rfl) (fun _ => rfl) fun _ htimes => htimes
    · exact h

theorem getAddr_spec (rnd : Nat → Nat) :
    ∃ r, am.getAddr_ rnd = some r ∧ AddrManInv env tryOk none r.1 := by
  let I (_ : List Nat) (st : CAddrMan × List CAddress) : Prop :=
    AddrManInv env tryOk none st.1 ∧ st.1.vRandom.length = am.vRandom.length
  let nNodes := min (addrmanGetaddrMaxPct * am.vRandom.length / 100) addrmanGetaddrMax
  have hle : nNodes ≤ am.vRandom.length := by
    have hmin : nNodes ≤ 23 * am.vRandom.length / 100 := min_le_left _ _
    omega
  obtain ⟨st, hst, hinv, -⟩ : ∃ st, (List.range nNodes).foldlM (getAddrRound rnd) (am, []) = some st ∧
      I (List.range nNodes) st :=
    Loop.foldlM_total I ⟨h, rfl⟩ (by
      rintro done n rest ⟨am1, vAddr⟩ hxs ⟨hinv, hlen⟩
      have hn : n < am1.vRandom.length := by
        have hmem : n ∈ List.range nNodes := by
          rw [hxs]
          simp
        have hlt := List.mem_range.mp hmem
        simp only at hlen
        omega
      have hpos : getRandInt (rnd n) (am1.vRandom.length - n) + n < am1.vRandom.length := by
        have hmod := Nat.mod_lt (rnd n) (show 0 < am1.vRandom.length - n by omega)
        rw [getRandInt, if_neg (by omega)]
        omega
      obtain ⟨am2, hswap, hinv2, hmoved⟩ := hinv.swapRandom_spec hn hpos
      have hlen2 : am2.vRandom.length = am1.vRandom.length := hmoved.length
      have hget := List.getElem?_eq_getElem (show n < am2.vRandom.length by omega)
      obtain ⟨info, hinfo⟩ :=
          hinv2.index.mem_vRandom_iff.mp (List.getElem_mem (show n < am2.vRandom.length by omega))
      refine ⟨(am2, vAddr ++ [info.toCAddress]), ?_, hinv2, hlen2.trans hlen⟩
      simp only [getAddrRound, hswap, hget, hinfo, Option.bind_eq_bind, Option.bind_some])
  exact ⟨st, hst, hinv⟩

end

/-! ### Calls -/

end AddrManInv

namespace CAddrMan.Call

/-- A `Good_` has a positive time. -/
def GoodPositive : Call → Prop
  | .good_ _ nTime _ => 0 < nTime
  | _ => True

/-- An `Attempt_` has a time that is not negative. -/
def AttemptNonneg : Call → Prop
  | .attempt_ _ nTime => 0 ≤ nTime
  | _ => True

end CAddrMan.Call

namespace AddrManInv

theorem call_spec (h : AddrManInv env tryOk none am) (htry : ∀ nTime, 0 ≤ nTime → tryOk nTime) {c : Call}
    (hgood : c.GoodPositive) (hattempt : c.AttemptNonneg ∨ ∀ nTime, tryOk nTime) :
    ∃ am', am.call env c = some am' ∧ AddrManInv env tryOk none am' := by
  cases c with
  | add_ addr source nTimePenalty nNow rnd =>
    obtain ⟨r, hadd, hinv⟩ := h.add_spec (htry 0 le_rfl) addr source nTimePenalty nNow rnd
    exact ⟨r.2, by rw [call, hadd, Option.map_some], hinv⟩
  | good_ addr nTime rnd => exact h.good_spec addr hgood (htry nTime (show 0 < nTime from hgood).le) rnd
  | attempt_ addr nTime => exact ⟨_, rfl, h.attempt_spec addr (hattempt.elim (htry nTime) fun hall => hall nTime)⟩
  | connected_ addr nTime => exact ⟨_, rfl, h.connected_spec addr nTime⟩
  | getAddr_ rnd =>
    obtain ⟨r, hget, hinv⟩ := h.getAddr_spec rnd
    exact ⟨r.1, by rw [call, hget, Option.map_some], hinv⟩

theorem calls_spec (htry : ∀ nTime, 0 ≤ nTime → tryOk nTime) {cs : List Call}
    (hgood : ∀ c ∈ cs, c.GoodPositive)
    (hattempt : ∀ c ∈ cs, c.AttemptNonneg ∨ ∀ nTime, tryOk nTime) (h : AddrManInv env tryOk none am) :
    ∃ am', cs.foldlM (CAddrMan.call env) am = some am' ∧ AddrManInv env tryOk none am' :=
  Loop.foldlM_total (m := Option) (fun _ am => AddrManInv env tryOk none am) h fun done c rest am1 hcs hinv => by
    have hmem : c ∈ cs := by
      rw [hcs]
      simp
    exact hinv.call_spec htry (hgood c hmem) (hattempt c hmem)

end AddrManInv

end Sphinx
