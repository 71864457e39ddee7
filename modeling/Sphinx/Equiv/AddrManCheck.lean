import Mathlib.Algebra.BigOperators.Fin
import Mathlib.Data.Set.Card
import Sphinx.Equiv.AddrMan
import Sphinx.Util.Checked

/-!
# The address manager passes its check

`AddrManOk` is what `Check_` is about: the indices are inverse, the counts are right, and every entry is in its "tried"
bucket or in as many "new" buckets as it counts.  It holds after every run of calls (`addrMan_invariant`), and `Check_`
returns 0 unless an `Attempt_` had a negative time.  `Check_` itself accepts what is `Checked`
(`check_eq_ok_iff`), which leaves the sizes of the buckets open.
-/

namespace Sphinx

open CAddrMan

structure AddrManOk (env : AddrManEnv) (am : CAddrMan) : Prop where
  random : PosIndex.Inverse (fun id => (am.mapInfo id).map CAddrInfo.nRandomPos) am.vRandom
  addr_iff : ∀ addr id, am.mapAddr addr = some id ↔ ∃ info, am.mapInfo id = some info ∧ info.service.ip = addr
  nTried_eq : am.nTried = Set.ncard {id | ∃ info, am.mapInfo id = some info ∧ info.fInTried = true}
  nNew_eq : am.nNew = Set.ncard {id | ∃ info, am.mapInfo id = some info ∧ info.fInTried = false}
  tried : ∀ id info, am.mapInfo id = some info → info.fInTried = true →
    info.nRefCount = 0 ∧ 0 < info.nLastSuccess ∧
      ∀ b, id ∈ am.vvTried b ↔ b = CAddrInfo.getTriedBucket env info.service
  new : ∀ id info, am.mapInfo id = some info → info.fInTried = false →
    info.nRefCount = (newBuckets am.vvNew id).card ∧ 1 ≤ info.nRefCount ∧
      info.nRefCount ≤ addrmanNewBucketsPerAddress ∧ 0 ≤ info.nLastSuccess
  of_tried : ∀ b id, id ∈ am.vvTried b → ∃ info, am.mapInfo id = some info ∧ info.fInTried = true
  of_new : ∀ b id, id ∈ am.vvNew b → ∃ info, am.mapInfo id = some info ∧ info.fInTried = false
  tried_nodup : ∀ b, (am.vvTried b).Nodup
  tried_size : ∀ b, (am.vvTried b).length ≤ addrmanTriedBucketSize
  new_size : ∀ b, (am.vvNew b).card ≤ addrmanNewBucketSize

variable {env : AddrManEnv} {tryOk : Int → Prop} {am : CAddrMan} {id : Nat} {info : CAddrInfo}

/-! ### The counts -/

/-- All of the "tried" buckets. -/
def CAddrMan.triedList (am : CAddrMan) : List Nat := (List.finRange addrmanTriedBucketCount).flatMap am.vvTried

namespace AddrManInv

section

variable (h : AddrManInv env tryOk none am)

include h

theorem mem_triedList :
    id ∈ am.triedList ↔ ∃ info, am.mapInfo id = some info ∧ info.fInTried = true := by
  rw [triedList, List.mem_flatMap]
  constructor
  · rintro ⟨b, -, hb⟩
    exact h.info_of_tried hb
  · rintro ⟨info, hid, htried⟩
    exact ⟨_, List.mem_finRange _, (h.bucket.tried_iff _ id).mpr ⟨info.entry, entry_of_info hid, htried, rfl⟩⟩

theorem nodup_triedList : am.triedList.Nodup := by
  rw [triedList, List.nodup_flatMap]
  refine ⟨fun b _ => h.bucket.tried_nodup b, (List.nodup_finRange _).imp fun {b b'} hne => ?_⟩
  -- an entry is in the bucket of its service only
  intro id hb hb'
  obtain ⟨e, he, -, hk⟩ := (h.bucket.tried_iff b id).mp hb
  obtain ⟨e', he', -, hk'⟩ := (h.bucket.tried_iff b' id).mp hb'
  rw [he, Option.some.injEq] at he'
  exact hne (by rw [← hk, ← hk', he'])

theorem length_triedList : (am.triedList.length : Int) = am.nTried := by
  rw [h.tried, triedList, List.length_flatMap, Fin.sum_univ_def]
  rw [Nat.cast_list_sum, List.map_map]
  rfl

theorem card_tried {s : Finset Nat}
    (hs : ∀ id, id ∈ s ↔ ∃ info, am.mapInfo id = some info ∧ info.fInTried = true) :
    (s.card : Int) = am.nTried := by
  have heq : s = am.triedList.toFinset := by
    ext id
    rw [hs, List.mem_toFinset, h.mem_triedList]
  rw [heq, List.toFinset_card_of_nodup h.nodup_triedList, h.length_triedList]

theorem card_new {s : Finset Nat}
    (hs : ∀ id, id ∈ s ↔ ∃ info, am.mapInfo id = some info ∧ info.fInTried = false) :
    (s.card : Int) = am.nNew := by
  have hdisjoint : Disjoint am.triedList.toFinset s := by
    rw [Finset.disjoint_left]
    intro id htried hnew
    obtain ⟨info, hid, htried⟩ := h.mem_triedList.mp (List.mem_toFinset.mp htried)
    obtain ⟨info', hid', hnew⟩ := (hs id).mp hnew
    rw [hid, Option.some.injEq] at hid'
    rw [← hid', htried] at hnew
    cases hnew
  have hall : am.triedList.toFinset ∪ s = am.vRandom.toFinset := by
    ext id
    rw [Finset.mem_union, hs, List.mem_toFinset, List.mem_toFinset, h.mem_triedList, h.index.mem_vRandom_iff]
    constructor
    · rintro (⟨info, hid, -⟩ | ⟨info, hid, -⟩) <;> exact ⟨info, hid⟩
    · rintro ⟨info, hid⟩
      cases htried : info.fInTried with
      | true => exact Or.inl ⟨info, hid, htried⟩
      | false => exact Or.inr ⟨info, hid, htried⟩
  have hcard := Finset.card_union_of_disjoint hdisjoint
  rw [hall, List.toFinset_card_of_nodup h.index.random.nodup, List.toFinset_card_of_nodup h.nodup_triedList] at hcard
  have hsize := h.size
  have htried := h.length_triedList
  omega

theorem ok : AddrManOk env am := by
  constructor
  case random => exact h.index.random
  case addr_iff => exact h.index.addr_iff
  case nTried_eq =>
    have hs : {id | ∃ info, am.mapInfo id = some info ∧ info.fInTried = true} =
        (am.triedList.toFinset : Set Nat) := by
      ext id
      rw [Set.mem_ofPred_eq, Finset.mem_coe, List.mem_toFinset, h.mem_triedList]
    rw [hs, Set.ncard_coe_finset, h.card_tried fun id => by rw [List.mem_toFinset, h.mem_triedList]]
  case nNew_eq =>
    have hnew (id : Nat) : id ∈ am.vRandom.toFinset \ am.triedList.toFinset ↔
        ∃ info, am.mapInfo id = some info ∧ info.fInTried = false := by
      rw [Finset.mem_sdiff, List.mem_toFinset, List.mem_toFinset, h.mem_triedList, h.index.mem_vRandom_iff]
      constructor
      · rintro ⟨⟨info, hid⟩, hout⟩
        exact ⟨info, hid, eq_false_of_ne_true fun htried => hout ⟨info, hid, htried⟩⟩
      · rintro ⟨info, hid, hnew⟩
        refine ⟨⟨info, hid⟩, ?_⟩
        rintro ⟨info', hid', htried⟩
        rw [hid, Option.some.injEq] at hid'
        rw [← hid', hnew] at htried
        cases htried
    have hs : {id | ∃ info, am.mapInfo id = some info ∧ info.fInTried = false} =
        ((am.vRandom.toFinset \ am.triedList.toFinset : Finset Nat) : Set Nat) := by
      ext id
      rw [Set.mem_ofPred_eq, Finset.mem_coe, hnew]
    rw [hs, Set.ncard_coe_finset, h.card_new hnew]
  case tried =>
    intro id info hid htried
    refine ⟨h.bucket.refs_tried (entry_of_info hid) htried, (h.times id info hid).2 htried, fun b => ?_⟩
    rw [h.bucket.tried_iff]
    constructor
    · rintro ⟨e, he, -, hk⟩
      rw [entry_of_info hid, Option.some.injEq] at he
      rw [← hk, ← he]
      rfl
    · rintro rfl
      exact ⟨info.entry, entry_of_info hid, htried, rfl⟩
  case new =>
    intro id info hid hnew
    obtain ⟨hlo, hhi⟩ := h.bucket.refs_new id info.entry (entry_of_info hid) hnew
    have hrefs : info.nRefCount = _ := h.bucket.refs id info.entry (entry_of_info hid)
    exact ⟨by simpa using hrefs, hlo, hhi, (h.times id info hid).1⟩
  case of_tried => exact fun b id hb => h.info_of_tried hb
  case of_new => exact fun b id hb => h.info_of_new hb
  case tried_nodup => exact h.bucket.tried_nodup
  case tried_size => exact h.bucket.tried_size
  case new_size => exact h.bucket.new_size

end

end AddrManInv

/-! ### The loops of `Check_` -/

theorem count_newBuckets (vvNew : NewBucket → Finset Nat) (id : Nat) :
    ((List.finRange addrmanNewBucketCount).flatMap fun b => (vvNew b).sort).count id = (newBuckets vvNew id).card := by
  have hcount : (List.count id ∘ fun b => (vvNew b).sort) = fun b => if id ∈ vvNew b then 1 else 0 := by
    funext b
    rw [Function.comp_apply]
    split_ifs with hmem
    · exact List.count_eq_one_of_mem (Finset.sort_nodup _ _) ((Finset.mem_sort _).mpr hmem)
    · exact List.count_eq_zero.mpr fun hin => hmem ((Finset.mem_sort _).mp hin)
  rw [List.count_flatMap, hcount, newBuckets, Finset.card_filter, Fin.sum_univ_def]

/-- `s` has the entries for which `p` holds, of those that were looked at. -/
def Collected (am : CAddrMan) (p : CAddrInfo → Prop) (done : List Nat) (s : Finset Nat) : Prop :=
  ∀ id, id ∈ s ↔ id ∈ done ∧ ∃ info, am.mapInfo id = some info ∧ p info

namespace Collected

variable {p : CAddrInfo → Prop} {done : List Nat} {s : Finset Nat} {n : Nat}

theorem skip (h : Collected am p done s) (hn : ∀ info, am.mapInfo n = some info → ¬ p info) :
    Collected am p (done ++ [n]) s := by
  intro id
  rw [h id, List.mem_append, List.mem_singleton]
  constructor
  · rintro ⟨hdone, hp⟩
    exact ⟨Or.inl hdone, hp⟩
  · rintro ⟨hdone | rfl, info, hid, hp⟩
    · exact ⟨hdone, info, hid, hp⟩
    · exact absurd hp (hn info hid)

theorem take (h : Collected am p done s) (hn : am.mapInfo n = some info) (hp : p info) :
    Collected am p (done ++ [n]) (insert n s) := by
  intro id
  rw [Finset.mem_insert, h id, List.mem_append, List.mem_singleton]
  constructor
  · rintro (rfl | ⟨hdone, hp⟩)
    · exact ⟨Or.inr rfl, info, hn, hp⟩
    · exact ⟨Or.inl hdone, hp⟩
  · rintro ⟨hdone | rfl, hp⟩
    · exact Or.inr ⟨hdone, hp⟩
    · exact Or.inl rfl

end Collected

namespace CAddrMan

/-- What `Check_` asks of an entry. -/
structure InfoChecked (am : CAddrMan) (id : Nat) (info : CAddrInfo) : Prop where
  tried : info.fInTried = true → info.nLastSuccess ≠ 0 ∧ info.nRefCount = 0
  new : info.fInTried = false → 1 ≤ info.nRefCount ∧ info.nRefCount ≤ addrmanNewBucketsPerAddress
  addr : (am.mapAddr info.service.ip).getD 0 = id
  random : 0 ≤ info.nRandomPos ∧ am.vRandom[info.nRandomPos.toNat]? = some id
  nLastTry : 0 ≤ info.nLastTry
  nLastSuccess : 0 ≤ info.nLastSuccess

/-- What `Check_` collects of an entry. -/
def collect (am : CAddrMan) (s : CheckSets) (n : Nat) : CheckSets :=
  match am.mapInfo n with
  | none => s
  | some info =>
    if info.fInTried then { s with setTried := insert n s.setTried }
    else { s with newIds := insert n s.newIds, mapNew := Function.update s.mapNew n info.nRefCount }

theorem checkInfo_eq_ok {s s' : CheckSets} {n : Nat} : am.checkInfo s n = .ok s' ↔
    (∀ info, am.mapInfo n = some info → InfoChecked am n info) ∧ s' = am.collect s n := by
  unfold checkInfo collect
  cases hid : am.mapInfo n with
  | none =>
    refine ⟨fun h => ⟨fun _ h => absurd h (by simp), (Except.ok.inj h).symm⟩,
      fun h => congrArg Except.ok h.2.symm⟩
  | some info =>
    have hrest (s₁ : CheckSets) : (if (am.mapAddr info.service.ip).getD 0 ≠ n then .error (-5)
        else if info.nRandomPos < 0 || (am.vRandom.length : Int) ≤ info.nRandomPos ||
            am.vRandom[info.nRandomPos.toNat]? ≠ some n then .error (-14)
        else if info.nLastTry < 0 then .error (-6)
        else if info.nLastSuccess < 0 then .error (-8)
        else .ok s₁ : Except Int CheckSets) = .ok s' ↔
          ((am.mapAddr info.service.ip).getD 0 = n ∧
            (0 ≤ info.nRandomPos ∧ am.vRandom[info.nRandomPos.toNat]? = some n) ∧ 0 ≤ info.nLastTry ∧
            0 ≤ info.nLastSuccess) ∧ s' = s₁ := by
      have hlt (h : am.vRandom[info.nRandomPos.toNat]? = some n) : info.nRandomPos.toNat < am.vRandom.length :=
        (List.getElem?_eq_some_iff.mp h).1
      split_ifs with h1 h2 h3 h4
      · simp [h1]
      · simp only [Bool.or_eq_true, decide_eq_true_eq] at h2
        refine iff_of_false (by simp) ?_
        rintro ⟨⟨-, ⟨hpos, hget⟩, -⟩, -⟩
        have hlt := hlt hget
        rcases h2 with (h2 | h2) | h2
        · omega
        · omega
        · exact h2 hget
      · exact iff_of_false (by simp) fun h => absurd h.1.2.2.1 (by omega)
      · exact iff_of_false (by simp) fun h => absurd h.1.2.2.2 (by omega)
      · simp only [Bool.or_eq_true, decide_eq_true_eq, not_or, not_not] at h1 h2
        rw [Except.ok.injEq]
        exact ⟨fun h => ⟨⟨h1, ⟨by omega, h2.2⟩, by omega, by omega⟩, h.symm⟩, fun h => h.2.symm⟩
    have hinfo : (∀ info', some info = some info' → InfoChecked am n info') ↔ InfoChecked am n info :=
      ⟨fun h => h info rfl, fun h info' heq => Option.some.inj heq ▸ h⟩
    rw [hinfo]
    cases hkind : info.fInTried with
    | true =>
      dsimp only
      rw [if_pos hkind, if_pos hkind]
      by_cases h1 : info.nLastSuccess = 0
      · rw [if_pos h1]
        exact iff_of_false (by rintro ⟨⟩) fun h => (h.1.tried hkind).1 h1
      rw [if_neg h1]
      by_cases h2 : info.nRefCount ≠ 0
      · rw [if_pos h2]
        exact iff_of_false (by rintro ⟨⟩) fun h => h2 (h.1.tried hkind).2
      rw [if_neg h2]
      refine (hrest _).trans (and_congr_left' ⟨?_, fun h => ⟨h.addr, h.random, h.nLastTry, h.nLastSuccess⟩⟩)
      rintro ⟨haddr, hrandom, htry, hsuccess⟩
      exact ⟨fun _ => ⟨h1, not_not.mp h2⟩, fun h => absurd (hkind.symm.trans h) (by simp), haddr, hrandom, htry,
        hsuccess⟩
    | false =>
      have hnot : ¬ info.fInTried = true := by rw [hkind]; exact Bool.false_ne_true
      dsimp only
      rw [if_neg hnot, if_neg hnot]
      by_cases h1 : (info.nRefCount < 0 || addrmanNewBucketsPerAddress < info.nRefCount) = true
      · rw [if_pos h1]
        simp only [Bool.or_eq_true, decide_eq_true_eq] at h1
        exact iff_of_false (by rintro ⟨⟩) fun h => absurd (h.1.new hkind) (by omega)
      rw [if_neg h1]
      by_cases h2 : info.nRefCount = 0
      · rw [if_pos h2]
        exact iff_of_false (by rintro ⟨⟩) fun h => absurd (h.1.new hkind) (by omega)
      rw [if_neg h2]
      simp only [Bool.or_eq_true, decide_eq_true_eq, not_or] at h1
      refine (hrest _).trans (and_congr_left' ⟨?_, fun h => ⟨h.addr, h.random, h.nLastTry, h.nLastSuccess⟩⟩)
      rintro ⟨haddr, hrandom, htry, hsuccess⟩
      exact ⟨fun h => absurd (hkind.symm.trans h) (by simp), fun _ => ⟨by omega, by omega⟩, haddr, hrandom, htry,
        hsuccess⟩

theorem foldlM_checkTried_eq_ok {l : List Nat} : ∀ {s s' : Finset Nat}, l.foldlM checkTried s = .ok s' ↔
    l.Nodup ∧ (∀ id ∈ l, id ∈ s) ∧ s' = s \ l.toFinset := by
  induction l with
  | nil =>
    intro s s'
    rw [List.foldlM_nil, List.toFinset_nil, Finset.sdiff_empty]
    exact ⟨fun h => ⟨.nil, fun _ h => absurd h List.not_mem_nil, (Except.ok.inj h).symm⟩,
      fun h => congrArg Except.ok h.2.2.symm⟩
  | cons id l ih =>
    intro s s'
    rw [List.foldlM_cons, checkTried, List.nodup_cons, List.forall_mem_cons]
    split_ifs with hid
    · refine (ih (s := s.erase id)).trans ?_
      have hset : s.erase id \ l.toFinset = s \ (id :: l).toFinset := by
        ext id'
        simp only [Finset.mem_sdiff, Finset.mem_erase, List.toFinset_cons, Finset.mem_insert]
        tauto
      rw [hset]
      constructor
      · rintro ⟨hl, hmem, heq⟩
        exact ⟨⟨fun hin => (Finset.mem_erase.mp (hmem id hin)).1 rfl, hl⟩,
          ⟨hid, fun id' hin => (Finset.mem_erase.mp (hmem id' hin)).2⟩, heq⟩
      · rintro ⟨⟨hout, hl⟩, ⟨-, hmem⟩, heq⟩
        exact ⟨hl, fun id' hin => Finset.mem_erase.mpr ⟨fun h => hout (h ▸ hin), hmem id' hin⟩, heq⟩
    · exact iff_of_false (by rintro ⟨⟩) fun h => hid h.2.1.1

/-- Every reference that is counted is found, and no other. -/
theorem foldlM_checkNew_eq_ok {l : List Nat} : ∀ {s : Finset Nat} {m : Nat → Int}, (∀ id ∈ s, 1 ≤ m id) →
    ((∃ m', l.foldlM checkNew (s, m) = .ok (∅, m')) ↔
      ∀ id, (l.count id : Int) = if id ∈ s then m id else 0) := by
  induction l with
  | nil =>
    intro s m hpos
    constructor
    · rintro ⟨m', h⟩ id
      rw [(Prod.mk.inj (Except.ok.inj h)).1]
      rfl
    · intro h
      have hempty : s = ∅ := by
        refine Finset.eq_empty_of_forall_notMem fun id hid => ?_
        have hcount := h id
        have hone := hpos id hid
        rw [if_pos hid, List.count_nil] at hcount
        omega
      exact ⟨m, by rw [hempty]; rfl⟩
  | cons id l ih =>
    intro s m hpos
    rw [List.foldlM_cons, checkNew]
    by_cases hid : id ∈ s
    · rw [if_pos hid]
      have hone := hpos id hid
      have hmem (id' : Nat) : id' ∈ (if m id - 1 = 0 then s.erase id else s) ↔ id' ∈ s ∧
          (id' = id → m id - 1 ≠ 0) := by
        split_ifs with hzero
        · rw [Finset.mem_erase]
          tauto
        · tauto
      refine (ih (s := if m id - 1 = 0 then s.erase id else s) fun id' hid' => ?_).trans (forall_congr' fun id' => ?_)
      · obtain ⟨hin, hne⟩ := (hmem id').mp hid'
        by_cases heq : id' = id
        · have hlast := hne heq
          rw [heq, Function.update_self]
          dsimp only
          omega
        · rw [Function.update_of_ne heq]
          exact hpos id' hin
      · by_cases heq : id' = id
        · rw [heq, Function.update_self, List.count_cons_self, if_pos hid]
          by_cases hzero : m id - 1 = 0
          · rw [if_neg fun h => ((hmem id).mp h).2 rfl hzero]
            omega
          · rw [if_pos ((hmem id).mpr ⟨hid, fun _ => hzero⟩)]
            dsimp only
            omega
        · rw [Function.update_of_ne heq, List.count_cons_of_ne (Ne.symm heq)]
          refine Eq.congr_right (if_congr ((hmem id').trans ?_) rfl rfl)
          exact and_iff_left_of_imp fun _ h => absurd h heq
    · rw [if_neg hid]
      refine iff_of_false (fun ⟨_, h⟩ => by cases h) fun h => ?_
      have hcount := h id
      rw [if_neg hid, List.count_cons_self] at hcount
      omega

/-- The entries that are "tried", or that are not. -/
def idsOf (am : CAddrMan) (fInTried : Bool) : Finset Nat :=
  (Finset.range am.nIdCount).filter fun id => (am.mapInfo id).any fun info => info.fInTried = fInTried

/-- The ids were given out. -/
def Numbered (am : CAddrMan) : Prop := ∀ id info, am.mapInfo id = some info → id < am.nIdCount

theorem Numbered.mem_idsOf (h : am.Numbered) {fInTried : Bool} {id : Nat} :
    id ∈ am.idsOf fInTried ↔ ∃ info, am.mapInfo id = some info ∧ info.fInTried = fInTried := by
  rw [idsOf, Finset.mem_filter, Finset.mem_range, Option.any_eq_true_iff_get]
  constructor
  · rintro ⟨-, hsome, hkind⟩
    exact ⟨_, (Option.some_get hsome).symm, of_decide_eq_true hkind⟩
  · rintro ⟨info, hid, hkind⟩
    refine ⟨h id info hid, by rw [hid]; rfl, ?_⟩
    simp only [hid, Option.get_some]
    exact decide_eq_true hkind

/-- **What `Check_` accepts.** -/
structure Checked (am : CAddrMan) : Prop where
  size : (am.vRandom.length : Int) = am.nTried + am.nNew
  info : ∀ {id info}, am.mapInfo id = some info → InfoChecked am id info
  nTried_eq : ((am.idsOf true).card : Int) = am.nTried
  nNew_eq : ((am.idsOf false).card : Int) = am.nNew
  tried_nodup : am.triedList.Nodup
  tried_iff : ∀ id, id ∈ am.triedList ↔ ∃ info, am.mapInfo id = some info ∧ info.fInTried = true
  refs : ∀ {id info}, am.mapInfo id = some info → info.fInTried = false →
    info.nRefCount = (newBuckets am.vvNew id).card
  of_new : ∀ {b id}, id ∈ am.vvNew b → ∃ info, am.mapInfo id = some info ∧ info.fInTried = false

/-- All of the references, in the order of the buckets. -/
def newList (am : CAddrMan) : List Nat := (List.finRange addrmanNewBucketCount).flatMap fun b => (am.vvNew b).sort

theorem mem_newList {id : Nat} : id ∈ am.newList ↔ ∃ b, id ∈ am.vvNew b := by
  rw [newList, List.mem_flatMap]
  constructor
  · rintro ⟨b, -, hb⟩
    exact ⟨b, (Finset.mem_sort _).mp hb⟩
  · rintro ⟨b, hb⟩
    exact ⟨b, List.mem_finRange b, (Finset.mem_sort _).mpr hb⟩

theorem collected (h : am.Numbered) : ∃ mapNew,
    (List.range am.nIdCount).foldl am.collect {} = ⟨am.idsOf true, am.idsOf false, mapNew⟩ ∧
      ∀ {id info}, am.mapInfo id = some info → info.fInTried = false → mapNew id = info.nRefCount := by
  let I (done : List Nat) (s : CheckSets) : Prop :=
    Collected am (fun info => info.fInTried = true) done s.setTried ∧
    Collected am (fun info => info.fInTried = false) done s.newIds ∧
    ∀ id info, id ∈ done → am.mapInfo id = some info → info.fInTried = false → s.mapNew id = info.nRefCount
  obtain ⟨htried, hnew, hrefs⟩ : I (List.range am.nIdCount) ((List.range am.nIdCount).foldl am.collect {}) := by
    refine Loop.foldl_inv I ⟨fun id => by simp, fun id => by simp, fun id info hid => by simp at hid⟩ ?_
    rintro done n rest s - ⟨htried, hnew, hrefs⟩
    have hlast {id : Nat} (hid : id ∈ done ++ [n]) (hne : id ≠ n) : id ∈ done :=
      (List.mem_append.mp hid).resolve_right fun h => hne (List.mem_singleton.mp h)
    unfold collect
    cases hid : am.mapInfo n with
    | none =>
      have hno (info : CAddrInfo) : am.mapInfo n ≠ some info := by rw [hid]; exact Option.some_ne_none info |>.symm
      refine ⟨htried.skip fun info h => absurd h (hno info), hnew.skip fun info h => absurd h (hno info), ?_⟩
      intro id info hdone hid' hnew'
      exact hrefs id info (hlast hdone fun heq => hno info (heq ▸ hid')) hid' hnew'
    | some info =>
      have hself (info' : CAddrInfo) (hsome : am.mapInfo n = some info') : info' = info := by
        rw [hid, Option.some.injEq] at hsome
        exact hsome.symm
      dsimp only
      cases hkind : info.fInTried with
      | true =>
        refine ⟨htried.take hid hkind, hnew.skip fun info' hsome => ?_, fun id info' hdone hid' hnew' => ?_⟩
        · rw [hself info' hsome, hkind]
          exact Bool.noConfusion
        · refine hrefs id info' (hlast hdone fun heq => ?_) hid' hnew'
          rw [hself info' (heq ▸ hid'), hkind] at hnew'
          cases hnew'
      | false =>
        refine ⟨htried.skip fun info' hsome => ?_, hnew.take hid hkind, fun id info' hdone hid' hnew' => ?_⟩
        · rw [hself info' hsome, hkind]
          exact Bool.false_ne_true
        · show Function.update s.mapNew n info.nRefCount id = info'.nRefCount
          by_cases hne : id = n
          · rw [hne] at hid' ⊢
            rw [Function.update_self, hself info' hid']
          · rw [Function.update_of_ne hne]
            exact hrefs id info' (hlast hdone hne) hid' hnew'
  have hall {p : CAddrInfo → Prop} {s : Finset Nat} (hs : Collected am p (List.range am.nIdCount) s) (id : Nat) :
      id ∈ s ↔ ∃ info, am.mapInfo id = some info ∧ p info := by
    rw [hs id]
    exact and_iff_right_of_imp fun ⟨info, hid, _⟩ => List.mem_range.mpr (h id info hid)
  refine ⟨_, ?_, fun {id info} hid => hrefs id info (List.mem_range.mpr (h id info hid)) hid⟩
  have htried' : ((List.range am.nIdCount).foldl am.collect {}).setTried = am.idsOf true := by
    ext id
    rw [hall htried, h.mem_idsOf]
  have hnew' : ((List.range am.nIdCount).foldl am.collect {}).newIds = am.idsOf false := by
    ext id
    rw [hall hnew, h.mem_idsOf]
  rw [← htried', ← hnew']

theorem Numbered.triedList_eq_ok (h : am.Numbered) : am.triedList.foldlM checkTried (am.idsOf true) = .ok ∅ ↔
    am.triedList.Nodup ∧ ∀ id, id ∈ am.triedList ↔ ∃ info, am.mapInfo id = some info ∧
      info.fInTried = true := by
  rw [foldlM_checkTried_eq_ok, eq_comm, Finset.sdiff_eq_empty_iff_subset]
  refine and_congr_right' ?_
  simp only [← h.mem_idsOf, iff_def, List.mem_toFinset, Finset.subset_iff, forall_and]

theorem Numbered.newList_eq_ok (h : am.Numbered) {mapNew : Nat → Int}
    (hrefs : ∀ {id info}, am.mapInfo id = some info → info.fInTried = false → mapNew id = info.nRefCount)
    (hpos : ∀ id ∈ am.idsOf false, 1 ≤ mapNew id) :
    (∃ m', am.newList.foldlM checkNew (am.idsOf false, mapNew) = .ok (∅, m')) ↔
      (∀ {id info}, am.mapInfo id = some info → info.fInTried = false →
        info.nRefCount = (newBuckets am.vvNew id).card) ∧
      ∀ {b id}, id ∈ am.vvNew b → ∃ info, am.mapInfo id = some info ∧ info.fInTried = false := by
  rw [foldlM_checkNew_eq_ok hpos]
  have hnum (id : Nat) : am.newList.count id = (newBuckets am.vvNew id).card := count_newBuckets am.vvNew id
  constructor
  · intro hall
    constructor
    · intro id info hid hkind
      have hid' := hall id
      rw [if_pos (h.mem_idsOf.mpr ⟨info, hid, hkind⟩), hrefs hid hkind, hnum] at hid'
      exact hid'.symm
    · intro b id hb
      by_contra hno
      have hid' := hall id
      rw [if_neg fun hmem => hno (h.mem_idsOf.mp hmem)] at hid'
      have hin : 0 < am.newList.count id := List.count_pos_iff.mpr (mem_newList.mpr ⟨b, hb⟩)
      omega
  · rintro ⟨hall, hof⟩ id
    rw [hnum]
    split_ifs with hmem
    · obtain ⟨info, hid, hkind⟩ := h.mem_idsOf.mp hmem
      rw [hrefs hid hkind, hall hid hkind]
    · rw [← hnum, List.count_eq_zero.mpr fun hin => hmem ?_]
      · rfl
      · obtain ⟨b, hb⟩ := mem_newList.mp hin
        exact h.mem_idsOf.mpr (hof hb)

theorem Numbered.foldlM_checkInfo (h : am.Numbered) {s : CheckSets} :
    (List.range am.nIdCount).foldlM am.checkInfo {} = .ok s ↔
      (∀ id info, am.mapInfo id = some info → InfoChecked am id info) ∧
        s = (List.range am.nIdCount).foldl am.collect {} := by
  refine (Loop.foldlM_eq_ok_iff (f := am.checkInfo) (g := am.collect)
    (P := fun n => ∀ info, am.mapInfo n = some info → InfoChecked am n info) fun _ _ _ => checkInfo_eq_ok).trans ?_
  refine and_congr_left' ⟨fun hinfo id info hid => hinfo id (List.mem_range.mpr (h id info hid)) info hid, ?_⟩
  exact fun hinfo id _ info hid => hinfo id info hid

/-- **`Check_` returns 0** exactly on these. -/
theorem check_eq_ok_iff (h : am.Numbered) : am.check_ = .ok () ↔ am.Checked := by
  obtain ⟨mapNew, hcollect, hrefs⟩ := collected h
  have hpos (hinfo : ∀ id info, am.mapInfo id = some info → InfoChecked am id info) :
      ∀ id ∈ am.idsOf false, 1 ≤ mapNew id := by
    intro id hid
    obtain ⟨info, hid, hkind⟩ := h.mem_idsOf.mp hid
    rw [hrefs hid hkind]
    exact ((hinfo id info hid).new hkind).1
  unfold check_
  constructor
  · intro hok
    split_ifs at hok with hsize
    obtain ⟨s, hs, hok⟩ := Checked.bind_ok hok
    obtain ⟨hinfo, rfl⟩ := h.foldlM_checkInfo.mp hs
    rw [hcollect] at hok
    dsimp only at hok
    split_ifs at hok with hnTried hnNew
    obtain ⟨setTried, htried, hok⟩ := Checked.bind_ok hok
    obtain ⟨⟨newIds, m'⟩, hnew, hok⟩ := Checked.bind_ok hok
    dsimp only at hok
    split_ifs at hok with hempty hempty'
    rw [not_not.mp hempty] at htried
    rw [not_not.mp hempty'] at hnew
    obtain ⟨hnodup, hmem⟩ := h.triedList_eq_ok.mp htried
    obtain ⟨hcount, hof⟩ := (h.newList_eq_ok hrefs (hpos hinfo)).mp ⟨m', hnew⟩
    exact ⟨not_not.mp hsize, fun hid => hinfo _ _ hid, not_not.mp hnTried, not_not.mp hnNew,
      hnodup, hmem, hcount, hof⟩
  · intro hc
    rw [if_neg (not_not.mpr hc.size), h.foldlM_checkInfo.mpr ⟨fun _ _ hid => hc.info hid, rfl⟩, hcollect]
    show (if ((am.idsOf true).card : Int) ≠ am.nTried then _ else _) = _
    rw [if_neg (not_not.mpr hc.nTried_eq), if_neg (not_not.mpr hc.nNew_eq)]
    show (am.triedList.foldlM checkTried (am.idsOf true) >>= _) = _
    rw [h.triedList_eq_ok.mpr ⟨hc.tried_nodup, hc.tried_iff⟩]
    obtain ⟨m', hnew⟩ := (h.newList_eq_ok hrefs (hpos fun _ _ hid => hc.info hid)).mpr ⟨hc.refs, hc.of_new⟩
    show (am.newList.foldlM checkNew (am.idsOf false, mapNew) >>= _) = _
    rw [hnew]
    rfl

end CAddrMan

namespace AddrManInv

theorem numbered (h : AddrManInv env tryOk none am) : am.Numbered := h.index.id_lt

theorem checked (h : AddrManInv env (fun nTime => 0 ≤ nTime) none am) : am.Checked where
  size := h.size
  info {id info} hid := by
    obtain ⟨hnonneg, hpos, htry⟩ := h.times id info hid
    obtain ⟨hplace, hget⟩ := h.index.nRandomPos_eq hid
    constructor
    case tried => exact fun hkind => ⟨(hpos hkind).ne', h.bucket.refs_tried (entry_of_info hid) hkind⟩
    case new => exact fun hkind => h.bucket.refs_new id info.entry (entry_of_info hid) hkind
    case addr => rw [h.index.mapAddr_eq hid, Option.getD_some]
    case random => exact ⟨hplace, hget⟩
    case nLastTry => exact htry
    case nLastSuccess => exact hnonneg
  nTried_eq := h.card_tried fun _ => h.numbered.mem_idsOf
  nNew_eq := h.card_new fun _ => h.numbered.mem_idsOf
  tried_nodup := h.nodup_triedList
  tried_iff _ := h.mem_triedList
  refs {id info} hid hkind := by
    have hrefs : info.nRefCount = _ := h.bucket.refs id info.entry (entry_of_info hid)
    simpa using hrefs
  of_new := h.info_of_new

theorem check_eq_ok (h : AddrManInv env (fun nTime => 0 ≤ nTime) none am) : am.check_ = .ok () :=
  (check_eq_ok_iff h.numbered).mpr h.checked

end AddrManInv

/-! ### Runs -/

/-- No assertion fails in a run of calls, and it keeps the invariant.  `Check_` passes where no `Attempt_` has a
negative time. -/
theorem addrMan_invariant (env : AddrManEnv) (cs : List Call) (hgood : ∀ c ∈ cs, c.GoodPositive) :
    ∃ am, cs.foldlM (CAddrMan.call env) {} = some am ∧ AddrManOk env am ∧
      ((∀ c ∈ cs, c.AttemptNonneg) → am.check_ = .ok ()) := by
  obtain ⟨am, hrun, hinv⟩ := @AddrManInv.calls_spec env (fun _ => True) _ (fun _ _ => trivial) _ hgood
    (fun _ _ => Or.inr fun _ => trivial) addrManInv_empty
  refine ⟨am, hrun, hinv.ok, fun hattempt => ?_⟩
  obtain ⟨am', hrun', hinv'⟩ := @AddrManInv.calls_spec env (fun nTime => 0 ≤ nTime) _ (fun _ h => h) _ hgood
    (fun c hc => Or.inl (hattempt c hc)) addrManInv_empty
  rw [hrun, Option.some.injEq] at hrun'
  rw [hrun']
  exact hinv'.check_eq_ok

def sampleAddrEnv : AddrManEnv where
  nKey := []
  hash := fun ss => ss.length
  getGroup := fun _ => []
  isRoutable := fun _ => true

def samplePeer : CService := ⟨List.replicate 16 1, 8333⟩

/-- A peer is added, tried and connected. -/
theorem addrMan_invariant_sample :
    ∃ am, [.add_ { service := samplePeer } [2] 0 100000000 (fun _ => 0), .attempt_ samplePeer 100000001,
        .good_ samplePeer 100000002 (fun _ => 5), .connected_ samplePeer 100009999,
        .getAddr_ fun _ => 1].foldlM (CAddrMan.call sampleAddrEnv) {} = some am ∧ AddrManOk sampleAddrEnv am ∧
      am.check_ = .ok () := by
  obtain ⟨am, hrun, hok, hcheck⟩ := addrMan_invariant sampleAddrEnv
    [.add_ { service := samplePeer } [2] 0 100000000 (fun _ => 0), .attempt_ samplePeer 100000001,
      .good_ samplePeer 100000002 (fun _ => 5), .connected_ samplePeer 100009999, .getAddr_ fun _ => 1]
    (by simp [Call.GoodPositive])
  exact ⟨am, hrun, hok, hcheck (by simp [Call.AttemptNonneg])⟩

/-- An `Attempt_` with a negative time is kept, and `Check_` rejects it. -/
theorem attempt_negative_check :
    ∃ am, [.add_ { service := samplePeer } [2] 0 100000000 (fun _ => 0),
        .attempt_ samplePeer (-1)].foldlM (CAddrMan.call sampleAddrEnv) {} = some am ∧ am.check_ = .error (-6) :=
  ⟨_, rfl, rfl⟩

end Sphinx
